import NetSim.Memory.Carriers

/-!
# Reads return the latest write

The memory model keeps no data. Here the addresses get contents: a write that is accepted leaves its
data in the write buffer of the controller, where a write that joins a pending one replaces the data
of that one; the `WRITE` command moves the data to the array of the device; a read of an address
with a pending write gets the data from the buffer at once, and the other reads get it from the
array when their `READ` command is issued. Although the controller reorders the transactions, every
read gets the data of the latest write that was accepted before it (`reads_get_latest_write`).

With separate queues a write is kept back while a read of its address is pending. With a unified
queue the commands of an address stay in order, and `HasRWDependency` holds the write back.
-/

namespace NetSim.Memory

open Common Library

variable {c : Config} {V : Type}

/-- The contents of the memory and of the buffers. -/
structure Data (V : Type) where
  /-- The data of the latest write that was accepted. -/
  latest : Addr → V
  /-- The data of the pending write, if there is one. -/
  buffer : Addr → Option V
  /-- What the device holds. -/
  array : Addr → V
  /-- The pending reads, with the data of the latest write before each. -/
  expected : List (Addr × V)
  /-- What the reads that have been served had to get, and what they got. -/
  answers : List (V × Option V)

namespace Data

def init (m : Addr → V) : Data V := ⟨m, fun _ => none, m, [], []⟩

def write (d : Data V) (a : Addr) (v : V) : Data V :=
  { d with latest := Function.update d.latest a v, buffer := Function.update d.buffer a (some v) }

/-- A read that is served from the write buffer. -/
def forward (d : Data V) (a : Addr) : Data V :=
  { d with answers := d.answers ++ [(d.latest a, d.buffer a)] }

/-- A read that waits for its command. -/
def await (d : Data V) (a : Addr) : Data V :=
  { d with expected := d.expected ++ [(a, d.latest a)] }

/-- A command that reaches the device. A read answers all pending reads of its address, and a write
moves the buffered data to the array. -/
def command (d : Data V) (r : Command c) : Data V :=
  if r.cmdType.isRead then
    { d with
      answers := d.answers ++
        (d.expected.filter fun x => x.1 = r.hexAddr).map fun x => (x.2, some (d.array r.hexAddr))
      expected := d.expected.filter fun x => !decide (x.1 = r.hexAddr) }
  else if r.cmdType.isWrite then
    { d with
      array := Function.update d.array r.hexAddr
        ((d.buffer r.hexAddr).getD (d.array r.hexAddr))
      buffer := Function.update d.buffer r.hexAddr none }
  else d

/-- The commands of a part of a trace, the latest first. -/
def commands (d : Data V) (trace : List (Issued c)) : Data V :=
  trace.foldr (fun e d => d.command e.cmd) d

end Data

namespace Controller

/-- A run of a controller with the contents of the memory, which are `m` at first. -/
inductive Recorded (m : Addr → V) : Controller c → Data V → Prop
  | start : Recorded m init (.init m)
  | write {s : Controller c} {d : Data V} (prior : Recorded m s d)
      (haccept : s.willAcceptTransaction true = true) (a : Addr) (v : V) :
      Recorded m (s.addTransaction a true) (d.write a v)
  | read {s : Controller c} {d : Data V} (prior : Recorded m s d)
      (haccept : s.willAcceptTransaction false = true) (a : Addr) :
      Recorded m (s.addTransaction a false)
        (if countAddr a s.pendingWrQ = 0 then d.await a else d.forward a)
  | returnDone {s s' : Controller c} {d : Data V} (prior : Recorded m s d) {clk : Nat}
      {t : Transaction} (hreturn : s.returnDoneTrans clk = some (t, s')) : Recorded m s' d
  | tick {s s' : Controller c} {d : Data V} (prior : Recorded m s d)
      (htick : s.clockTick = .ok s') {new : List (Issued c)}
      (hnew : s'.cmdTrace = new ++ s.cmdTrace) : Recorded m s' (d.commands new)

variable {s s' : Controller c} {r : Command c} {a : Addr}

/-! ## The order of a read and a write of one address -/

/-- The commands of the queue of an address, and those that are still to come. -/
def lineup (s : Controller c) (a : Addr) : List (Command c) :=
  s.cmdQueue.queues (queueOf c a) ++ s.unifiedQueue.map fun t => transToCommand t.addr t.isWrite

/-- A write does not overtake a read of its address. -/
structure Ordered (s : Controller c) : Prop where
  unified : c.unifiedQueue = true → s.readQueue = [] ∧ s.writeBuffer = []
  lineup : c.unifiedQueue = true → ∀ a, (s.lineup a).Pairwise fun x y =>
    ¬ (x = transToCommand a true ∧ y = transToCommand a false)
  apart : c.unifiedQueue = false → ∀ a, countAddr a s.pendingRdQ ≠ 0 →
    transToCommand a true ∉ s.cmdQueue.queues (queueOf c a)

theorem mem_lineup_of_carriers {w : Bool} (h : Ordered s) (hunified : c.unifiedQueue = true)
    (hpos : s.carriers a w ≠ 0) : transToCommand a w ∈ s.lineup a := by
  obtain ⟨hread, hwrite⟩ := h.unified hunified
  unfold Controller.lineup
  rw [List.mem_append]
  by_cases hqueue : transToCommand a w ∈ s.cmdQueue.queues (queueOf c a)
  · exact Or.inl hqueue
  · refine Or.inr ?_
    have hcount : s.unifiedQueue.countP (carries a w) ≠ 0 := by
      simpa [carriers, waitingCount, hread, hwrite, List.count_eq_zero.mpr hqueue] using hpos
    obtain ⟨t, ht, hcarries⟩ := List.countP_pos_iff.mp (Nat.pos_of_ne_zero hcount)
    simp only [carries, Bool.and_eq_true, decide_eq_true_eq] at hcarries
    refine List.mem_map.mpr ⟨t, ht, ?_⟩
    rw [hcarries.1, hcarries.2]

theorem not_mem_of_carriers {w : Bool} (hzero : s.carriers a w = 0) :
    transToCommand a w ∉ s.lineup a := by
  unfold carriers waitingCount at hzero
  unfold Controller.lineup
  rw [List.mem_append, not_or]
  refine ⟨List.count_eq_zero.mp (by omega), fun hmem => ?_⟩
  obtain ⟨t, ht, heq⟩ := List.mem_map.mp hmem
  obtain ⟨haddr, hkind⟩ := transToCommand_inj.mp heq
  have hnone := List.countP_eq_zero.mp (show s.unifiedQueue.countP (carries a w) = 0 by omega) t ht
  simp [carries, haddr, hkind] at hnone

/-- A read of the same address holds a write back. -/
theorem hasRWDependency_of_mem {before : List (Command c)}
    (h : transToCommand a false ∈ before) :
    CommandQueue.hasRWDependency before (transToCommand a true) = true := by
  unfold CommandQueue.hasRWDependency
  refine List.any_eq_true.mpr ⟨_, h, ?_⟩
  simp [transToCommand]
  cases c.rowBufPolicy <;> rfl

/-- When a write is issued no read of its address is on its way. -/
theorem Ordered.no_read {i : Nat} {before after : List (Command c)} (h : Ordered s)
    (hcarried : Carried s) (hqueue : s.cmdQueue.queues i = before ++ r :: after)
    (hwrite : r.cmdType.isWrite = true) (hdep : CommandQueue.hasRWDependency before r = false) :
    s.carriers r.hexAddr false = 0 := by
  have hplaced := hcarried.placed i r (by rw [hqueue]; simp)
  obtain ⟨heq, hi⟩ := hplaced
  rw [hwrite] at heq
  by_contra hpos
  cases hunified : c.unifiedQueue with
  | false =>
    have hpending := hcarried.pending r.hexAddr false
    refine h.apart hunified r.hexAddr ?_ ?_
    · have hpending : s.carriers r.hexAddr false ≤ countAddr r.hexAddr s.pendingRdQ := hpending
      omega
    · rw [hi, hqueue, ← heq]
      simp
  | true =>
    have hmem := mem_lineup_of_carriers h hunified hpos
    have hpair := h.lineup hunified r.hexAddr
    have hlineup : s.lineup r.hexAddr = before ++ r ::
        (after ++ s.unifiedQueue.map fun t => transToCommand t.addr t.isWrite) := by
      unfold Controller.lineup
      rw [hi, hqueue]
      simp
    rw [hlineup] at hmem hpair
    rcases List.mem_append.mp hmem with hbefore | hrest
    · rw [heq, hasRWDependency_of_mem hbefore] at hdep
      cases hdep
    · rcases List.mem_cons.mp hrest with hself | hafter
      · rw [heq] at hself
        have hkind := (transToCommand_inj.mp hself).2
        cases hkind
      · have htail := (List.pairwise_cons.mp (List.pairwise_append.mp hpair).2.1).1
        exact htail _ hafter ⟨heq, rfl⟩

namespace Ordered

theorem same (h : Ordered s) (hqueues : s'.cmdQueue.queues = s.cmdQueue.queues)
    (hunified : s'.unifiedQueue = s.unifiedQueue) (hread : s'.readQueue = s.readQueue)
    (hwrite : s'.writeBuffer = s.writeBuffer) (hpending : s'.pendingRdQ = s.pendingRdQ) :
    Ordered s' := by
  refine ⟨?_, ?_, ?_⟩
  · rw [hread, hwrite]
    exact h.unified
  · unfold Controller.lineup
    rw [hqueues, hunified]
    exact h.lineup
  · rw [hqueues, hpending]
    exact h.apart

/-- Fewer commands and fewer pending reads. -/
theorem fewer (h : Ordered s)
    (hqueues : ∀ i, (s'.cmdQueue.queues i).Sublist (s.cmdQueue.queues i))
    (hunified : s'.unifiedQueue = s.unifiedQueue) (hread : s'.readQueue = s.readQueue)
    (hwrite : s'.writeBuffer = s.writeBuffer)
    (hpending : ∀ a, countAddr a s'.pendingRdQ ≠ 0 → countAddr a s.pendingRdQ ≠ 0) :
    Ordered s' := by
  refine ⟨?_, fun hu a => ?_, fun hu a hcount hmem => ?_⟩
  · rw [hread, hwrite]
    exact h.unified
  · refine (h.lineup hu a).sublist ?_
    unfold Controller.lineup
    rw [hunified]
    exact (hqueues _).append (List.Sublist.refl _)
  · exact h.apart hu a (hpending a hcount) ((hqueues _).subset hmem)

theorem leaves {i : Nat} (h : Ordered s) (hcarried : Carried s) (hr : r ∈ s.cmdQueue.queues i) :
    Ordered (s.leaves r) := by
  have hqueues := leaves_queues hcarried.placed hr
  obtain ⟨q, hq⟩ := s.leaves_eq r
  refine h.fewer (fun j => ?_) (by rw [hq]) (by rw [hq]) (by rw [hq]) (by rw [hq]; simp)
  rw [hqueues]
  by_cases hj : j = i
  · subst hj
    rw [Function.update_self]
    exact List.erase_sublist
  · rw [Function.update_of_ne hj]

theorem issued (h : Ordered s) : Ordered (s.issued r) := by
  refine h.fewer (fun _ => List.Sublist.refl _) rfl rfl rfl fun a hcount => ?_
  have hpending := issued_pending s r a false
  rw [if_neg Bool.false_ne_true] at hpending
  have hcount : countAddr a ((s.issued r).pending false) ≠ 0 := hcount
  rw [hpending] at hcount
  split at hcount
  · exact absurd rfl hcount
  · exact hcount

theorem scheduled {src : Source} {before after : List Transaction} {t : Transaction}
    (h : Ordered s) (hqueue : s.queue src = before ++ t :: after)
    (hsrc : src = .unified ↔ c.unifiedQueue = true)
    (haccept : s.cmdQueue.willAcceptCommand (c.addressMapping t.addr).bank = true)
    (hfirst : ∀ x ∈ before, s.cmdQueue.willAcceptCommand (c.addressMapping x.addr).bank = false)
    (hwait : c.unifiedQueue = false → t.isWrite = true → countAddr t.addr s.pendingRdQ = 0) :
    Ordered (s.scheduled src before t after) := by
  have hqueues := @scheduled_queues c s src before after t haccept
  cases hunified : c.unifiedQueue with
  | true =>
    obtain rfl := hsrc.mpr hunified
    have hunifiedQueue : s.unifiedQueue = before ++ t :: after := hqueue
    refine ⟨fun _ => h.unified hunified, fun _ a => ?_, by simp [hunified]⟩
    have hold := h.lineup hunified a
    unfold Controller.lineup at hold ⊢
    rw [hunifiedQueue, List.map_append, List.map_cons] at hold
    have hnew : (s.scheduled .unified before t after).unifiedQueue = before ++ after := rfl
    rw [hqueues, hnew, List.map_append]
    by_cases ha : queueOf c a = queueOf c t.addr
    · -- the transaction passes those before it, which are not for its queue
      rw [ha] at hold ⊢
      rw [Function.update_self]
      obtain ⟨hq, hrest, hcross⟩ := List.pairwise_append.mp hold
      obtain ⟨hbefore, hafter, hcross'⟩ := List.pairwise_append.mp hrest
      obtain ⟨htail, hafter⟩ := List.pairwise_cons.mp hafter
      refine List.pairwise_append.mpr ⟨?_, ?_, ?_⟩
      · refine List.pairwise_append.mpr ⟨hq, by simp, fun x hx y hy => ?_⟩
        rw [List.mem_singleton.mp hy]
        exact hcross x hx _ (by simp)
      · refine List.pairwise_append.mpr ⟨hbefore, hafter, fun x hx y hy => ?_⟩
        exact hcross' x hx y (List.mem_cons_of_mem _ hy)
      · intro x hx y hy
        rcases List.mem_append.mp hx with hx | hx
        · refine hcross x hx y ?_
          rcases List.mem_append.mp hy with hy | hy
          · exact List.mem_append_left _ hy
          · exact List.mem_append_right _ (List.mem_cons_of_mem _ hy)
        · rw [List.mem_singleton.mp hx]
          rcases List.mem_append.mp hy with hy | hy
          · rintro ⟨hwrite, hread⟩
            obtain ⟨u, hu, rfl⟩ := List.mem_map.mp hy
            have hrefused := hfirst u hu
            rw [(transToCommand_inj.mp hread).1, ← (transToCommand_inj.mp hwrite).1,
              haccept] at hrefused
            cases hrefused
          · exact htail y hy
    · rw [Function.update_of_ne ha]
      refine hold.sublist ((List.Sublist.refl _).append ?_)
      exact (List.Sublist.refl _).append (List.sublist_cons_self _ _)
  | false =>
    have hpending := congrFun (scheduled_pending s src before after t) false
    refine ⟨by simp [hunified], by simp [hunified], fun _ a hcount hmem => ?_⟩
    have hcount : countAddr a ((s.scheduled src before t after).pending false) ≠ 0 := hcount
    rw [hpending] at hcount
    rw [hqueues] at hmem
    by_cases ha : queueOf c a = queueOf c t.addr
    · rw [ha, Function.update_self, ← ha] at hmem
      rcases List.mem_append.mp hmem with hmem | hmem
      · exact h.apart hunified a hcount hmem
      · obtain ⟨rfl, hwrite⟩ := transToCommand_inj.mp (List.mem_singleton.mp hmem)
        exact hcount (hwait hunified hwrite.symm)
    · rw [Function.update_of_ne ha] at hmem
      exact h.apart hunified a hcount hmem

theorem move (h : Ordered s) (hcarried : Carried s) (hs : InStep s) (hmove : Move s s') :
    Ordered s' := by
  cases hmove with
  | due | turn | idle | drain | tick => exact h.same rfl rfl rfl rfl rfl
  | @issue r horigin hissue =>
    cases hrw : r.cmdType.isReadWrite with
    | true =>
      obtain ⟨i, before, after, hqueue, -⟩ := horigin.mem_queue hs hrw
      exact (h.leaves hcarried (i := i) (by rw [hqueue]; simp)).issued
    | false =>
      have hsame : s.leaves r = s := by simp [Controller.leaves, hrw]
      rw [hsame]
      exact h.issued
  | drop horigin hrw =>
    obtain ⟨i, before, after, hqueue, -⟩ := horigin.mem_queue hs hrw
    exact h.leaves hcarried (i := i) (by rw [hqueue]; simp)
  | schedule hqueue hsrc haccept hfirst hwait =>
    exact h.scheduled hqueue hsrc haccept hfirst hwait

/-- A new pending read of an address without a write in its queue. -/
theorem apart_append (h : Ordered s) (hunified : c.unifiedQueue = false)
    (hmem : transToCommand a true ∉ s.lineup a) (b : Addr)
    (hcount : countAddr b (s.pendingRdQ ++ [s.fresh a false]) ≠ 0) :
    transToCommand b true ∉ s.cmdQueue.queues (queueOf c b) := by
  rw [countAddr_append] at hcount
  by_cases hb : a = b
  · subst hb
    intro hqueue
    exact hmem (List.mem_append_left _ hqueue)
  · refine h.apart hunified b ?_
    simpa [fresh, hb] using hcount

theorem added {w : Bool} (h : Ordered s) (hcarried : Carried s) (hadd : Added s a w s') :
    Ordered s' := by
  cases hadd with
  | merge | forward => exact h.same rfl rfl rfl rfl rfl
  | write hfree =>
    cases hunified : c.unifiedQueue with
    | true =>
      have hdest : destination c true = .unified := by simp [destination, hunified]
      rw [hdest]
      refine ⟨fun _ => h.unified hunified, fun _ b => ?_, by simp [hunified]⟩
      -- a write at the end overtakes nothing
      have hold := h.lineup hunified b
      unfold Controller.lineup at hold ⊢
      simp only [setQueue, queue, List.map_append, ← List.append_assoc]
      refine List.pairwise_append.mpr ⟨hold, by simp, fun x _ y hy hboth => ?_⟩
      have hwrite := hboth.2.symm.trans (List.mem_singleton.mp hy)
      have hkind := (transToCommand_inj.mp hwrite).2
      cases hkind
    | false =>
      have hdest : destination c true = .write := by simp [destination, hunified]
      rw [hdest]
      exact ⟨by simp [hunified], by simp [hunified], fun _ => h.apart hunified⟩
  | read hfree hfirst =>
    have hnone : s.carriers a true = 0 := by
      have hpending : s.carriers a true ≤ countAddr a s.pendingWrQ := hcarried.pending a true
      omega
    have hmem := not_mem_of_carriers hnone
    cases hunified : c.unifiedQueue with
    | true =>
      have hdest : destination c false = .unified := by simp [destination, hunified]
      rw [hdest]
      refine ⟨fun _ => h.unified hunified, fun _ b => ?_, by simp [hunified]⟩
      -- no write of the address is before the new read
      have hold := h.lineup hunified b
      unfold Controller.lineup at hold hmem ⊢
      simp only [setQueue, queue, List.map_append, ← List.append_assoc]
      refine List.pairwise_append.mpr ⟨hold, by simp, fun x hx y hy hboth => ?_⟩
      have hread := hboth.2.symm.trans (List.mem_singleton.mp hy)
      obtain ⟨rfl, -⟩ := transToCommand_inj.mp hread
      rw [hboth.1] at hx
      exact hmem hx
    | false =>
      have hdest : destination c false = .read := by simp [destination, hunified]
      rw [hdest]
      refine ⟨by simp [hunified], by simp [hunified], fun _ b hcount => ?_⟩
      exact h.apart_append hunified hmem b hcount
  | join hfree hpending =>
    have hnone : s.carriers a true = 0 := by
      have hpending : s.carriers a true ≤ countAddr a s.pendingWrQ := hcarried.pending a true
      omega
    refine ⟨h.unified, h.lineup, fun hunified b hcount => ?_⟩
    exact h.apart_append hunified (not_mem_of_carriers hnone) b hcount

end Ordered

/-! ## The contents -/

/-- The contents agree with the queues: the pending reads are those of the controller, the buffer
holds the latest data of the addresses with a pending write, the array that of the others, and what
a `READ` command on its way is going to find is what the reads that wait for it have to get. -/
structure Coherent (s : Controller c) (d : Data V) : Prop where
  aligned : d.expected.map Prod.fst = s.pendingRdQ.map Transaction.addr
  buffer : ∀ a, countAddr a s.pendingWrQ ≠ 0 → d.buffer a = some (d.latest a)
  array : ∀ a, countAddr a s.pendingWrQ = 0 → d.array a = d.latest a
  live : ∀ x ∈ d.expected, s.carriers x.1 false ≠ 0 → d.array x.1 = x.2
  answers : ∀ x ∈ d.answers, x.2 = some x.1

variable {d : Data V}

namespace Coherent

theorem same (h : Coherent s d) (hread : s'.pendingRdQ = s.pendingRdQ)
    (hwrite : s'.pendingWrQ = s.pendingWrQ)
    (hcarriers : ∀ a, s'.carriers a false ≤ s.carriers a false) : Coherent s' d := by
  refine ⟨hread ▸ h.aligned, hwrite ▸ h.buffer, hwrite ▸ h.array, fun x hx hpos => ?_, h.answers⟩
  have hle := hcarriers x.1
  exact h.live x hx (by omega)

theorem expected_pending (h : Coherent s d) {x : Addr × V} (hx : x ∈ d.expected) :
    countAddr x.1 s.pendingRdQ ≠ 0 := by
  have hmem : x.1 ∈ s.pendingRdQ.map Transaction.addr := by
    rw [← h.aligned]
    exact List.mem_map_of_mem hx
  obtain ⟨t, ht, haddr⟩ := List.mem_map.mp hmem
  unfold countAddr
  rw [Ne, List.countP_eq_zero]
  intro hnone
  exact hnone t ht (by simpa using haddr)

/-- A `READ` command answers the pending reads of its address. -/
theorem issued_read (h : Coherent s d) (hread : r.cmdType.isRead = true)
    (hway : s.carriers r.hexAddr false ≠ 0)
    (hcarriers : ∀ a, s'.carriers a false ≤ s.carriers a false)
    (hrd : s'.pendingRdQ = s.pendingRdQ.filter fun t => !decide (t.addr = r.hexAddr))
    (hwr : s'.pendingWrQ = s.pendingWrQ) : Coherent s' (d.command r) := by
  unfold Data.command
  rw [if_pos hread]
  refine ⟨?_, hwr ▸ h.buffer, hwr ▸ h.array, fun x hx hpos => ?_, fun x hx => ?_⟩
  · rw [hrd]
    have hfst := congrArg (List.filter fun a => !decide (a = r.hexAddr)) h.aligned
    rw [List.filter_map, List.filter_map] at hfst
    exact hfst
  · have hle := hcarriers x.1
    exact h.live x (List.mem_filter.mp hx).1 (by omega)
  · rcases List.mem_append.mp hx with hx | hx
    · exact h.answers x hx
    · obtain ⟨y, hy, rfl⟩ := List.mem_map.mp hx
      obtain ⟨hy, haddr⟩ := List.mem_filter.mp hy
      have haddr : y.1 = r.hexAddr := by simpa using haddr
      have hdata := h.live y hy (by rw [haddr]; exact hway)
      rw [haddr] at hdata
      simp only [hdata]

/-- A `WRITE` command moves the data of the pending write to the array. -/
theorem issued_write (h : Coherent s d) (hwrite : r.cmdType.isWrite = true)
    (hread : r.cmdType.isRead = false) (hpending : countAddr r.hexAddr s.pendingWrQ = 1)
    (hnone : s.carriers r.hexAddr false = 0)
    (hcarriers : ∀ a, s'.carriers a false ≤ s.carriers a false)
    (hrd : s'.pendingRdQ = s.pendingRdQ)
    (hwr : ∀ a, countAddr a s'.pendingWrQ =
      countAddr a s.pendingWrQ - if a = r.hexAddr then 1 else 0) :
    Coherent s' (d.command r) := by
  unfold Data.command
  rw [if_neg (by simp [hread]), if_pos hwrite]
  refine ⟨hrd ▸ h.aligned, fun a hcount => ?_, fun a hcount => ?_, fun x hx hpos => ?_, h.answers⟩
  · by_cases ha : a = r.hexAddr
    · subst ha
      rw [hwr, if_pos rfl, hpending] at hcount
      exact absurd rfl hcount
    · rw [hwr, if_neg ha, Nat.sub_zero] at hcount
      dsimp only
      rw [Function.update_of_ne ha]
      exact h.buffer a hcount
  · by_cases ha : a = r.hexAddr
    · subst ha
      dsimp only
      rw [Function.update_self, h.buffer _ (by omega)]
      rfl
    · rw [hwr, if_neg ha, Nat.sub_zero] at hcount
      dsimp only
      rw [Function.update_of_ne ha]
      exact h.array a hcount
  · have hle := hcarriers x.1
    have hne : x.1 ≠ r.hexAddr := by
      intro heq
      rw [heq, hnone] at hle
      exact hpos (by rw [heq]; omega)
    dsimp only
    rw [Function.update_of_ne hne]
    exact h.live x hx (by omega)

/-- A command that is issued. -/
theorem issued {i : Nat} {before after : List (Command c)} (h : Coherent s d) (hcarried : Carried s)
    (hordered : Ordered s) (hqueue : s.cmdQueue.queues i = before ++ r :: after)
    (hdep : r.cmdType.isWrite = true → CommandQueue.hasRWDependency before r = false) :
    Coherent ((s.leaves r).issued r) (d.command r) := by
  have hr : r ∈ s.cmdQueue.queues i := by
    rw [hqueue]
    simp
  have hplaced := hcarried.placed i r hr
  have hpos := carriers_pos hcarried.placed hr
  have hcarriers : ∀ a, ((s.leaves r).issued r).carriers a false ≤ s.carriers a false := by
    intro a
    have hleft := carriers_leaves (a := a) (w := false) hcarried.placed hr
    show (s.leaves r).carriers a false ≤ _
    omega
  obtain ⟨q, hq⟩ := s.leaves_eq r
  cases hwrite : r.cmdType.isWrite with
  | false =>
    have hread : r.cmdType.isRead = true := by rw [hplaced.isRead, hwrite]; rfl
    rw [hwrite] at hpos
    refine h.issued_read hread (Nat.pos_iff_ne_zero.mp hpos) hcarriers ?_ ?_
    · simp only [Controller.issued, hread, hq, if_true]
    · simp [Controller.issued, hwrite, hq]
  | true =>
    have hread : r.cmdType.isRead = false := by rw [hplaced.isRead, hwrite]; rfl
    rw [hwrite] at hpos
    have hsingle := hcarried.single r.hexAddr
    have hpending : s.carriers r.hexAddr true ≤ countAddr r.hexAddr s.pendingWrQ :=
      hcarried.pending r.hexAddr true
    refine h.issued_write hwrite hread (by omega)
      (hordered.no_read hcarried hqueue hwrite (hdep hwrite)) hcarriers ?_ fun a => ?_
    · simp [Controller.issued, hread, hq]
    · have hcount := issued_pending (s.leaves r) r a true
      rw [if_pos rfl, if_pos hwrite] at hcount
      rw [hq] at hcount ⊢
      exact hcount

/-- A command that is neither a read nor a write. -/
theorem issued_other (h : Coherent s d) (hrw : r.cmdType.isReadWrite = false) :
    Coherent ((s.leaves r).issued r) (d.command r) := by
  have hsame := issued_other_same (s := s) hrw
  simp only [CommandType.isReadWrite, Bool.or_eq_false_iff] at hrw
  have hdata : d.command r = d := by simp [Data.command, hrw.1, hrw.2]
  rw [hdata]
  refine h.same (congrFun hsame.pending false) (congrFun hsame.pending true) fun a => ?_
  rw [hsame.carriers]

end Coherent

/-- A move adds the command that it issues to the trace. -/
theorem Move.coherent (hmove : Move s s') (hs : InStep s) (hcarried : Carried s)
    (hordered : Ordered s) (h : Coherent s d) :
    ∃ new, s'.cmdTrace = new ++ s.cmdTrace ∧ Coherent s' (d.commands new) := by
  cases hmove with
  | due | turn | idle | drain | tick =>
    exact ⟨[], rfl, h.same rfl rfl fun a => le_refl _⟩
  | @issue r horigin hissue =>
    refine ⟨[⟨s.clk, r⟩], ?_, ?_⟩
    · obtain ⟨q, hq⟩ := s.leaves_eq r
      rw [hq]
      rfl
    · cases hrw : r.cmdType.isReadWrite with
      | true =>
        obtain ⟨i, before, after, hqueue, hdep⟩ := horigin.mem_queue hs hrw
        exact h.issued hcarried hordered hqueue hdep
      | false => exact h.issued_other hrw
  | @drop r _ horigin hrw =>
    obtain ⟨i, before, after, hqueue, -⟩ := horigin.mem_queue hs hrw
    have hr : r ∈ s.cmdQueue.queues i := by
      rw [hqueue]
      simp
    obtain ⟨q, hq⟩ := s.leaves_eq r
    refine ⟨[], by rw [hq]; rfl, h.same (by rw [hq]) (by rw [hq]) fun a => ?_⟩
    rw [carriers_leaves hcarried.placed hr]
    omega
  | @schedule src before t after hqueue hsrc haccept =>
    have hpending := scheduled_pending s src before after t
    refine ⟨[], ?_, h.same (congrFun hpending false) (congrFun hpending true) fun a => ?_⟩
    · cases src <;> rfl
    · rw [carriers_scheduled hqueue haccept]

theorem Moves.coherent (hmoves : Moves s s') (hs : InStep s) (hcarried : Carried s)
    (hordered : Ordered s) (h : Coherent s d) :
    Carried s' ∧ Ordered s' ∧
      ∃ new, s'.cmdTrace = new ++ s.cmdTrace ∧ Coherent s' (d.commands new) := by
  induction hmoves with
  | refl => exact ⟨hcarried, hordered, [], rfl, h⟩
  | @tail t u hmoves hmove ih =>
    have ht := Moves.inStep hmoves hs
    obtain ⟨hcarried, hordered, new, htrace, hcoherent⟩ := ih
    obtain ⟨more, hmore, hcoherent⟩ := hmove.coherent ht hcarried hordered hcoherent
    refine ⟨hcarried.move ht hmove, hordered.move hcarried ht hmove, more ++ new, ?_, ?_⟩
    · rw [hmore, htrace, List.append_assoc]
    · unfold Data.commands
      rw [List.foldr_append]
      exact hcoherent

/-! ## New transactions -/

namespace Coherent

/-- A write that is accepted, and is pending now. -/
theorem write (h : Coherent s d) (v : V) (hread : s'.pendingRdQ = s.pendingRdQ)
    (hself : countAddr a s'.pendingWrQ ≠ 0)
    (hother : ∀ b, b ≠ a → countAddr b s'.pendingWrQ = countAddr b s.pendingWrQ)
    (hcarriers : ∀ b, s'.carriers b false = s.carriers b false) :
    Coherent s' (d.write a v) := by
  refine ⟨hread ▸ h.aligned, fun b hcount => ?_, fun b hcount => ?_, fun x hx hpos => ?_, h.answers⟩
  · by_cases hb : b = a
    · subst hb
      simp [Data.write]
    · rw [hother b hb] at hcount
      simpa [Data.write, hb] using h.buffer b hcount
  · have hb : b ≠ a := fun heq => hself (heq ▸ hcount)
    rw [hother b hb] at hcount
    simpa [Data.write, hb] using h.array b hcount
  · rw [hcarriers] at hpos
    exact h.live x hx hpos

/-- A read of an address with a pending write. -/
theorem forward (h : Coherent s d) (hpending : countAddr a s.pendingWrQ ≠ 0) :
    Coherent s (d.forward a) := by
  refine ⟨h.aligned, h.buffer, h.array, h.live, fun x hx => ?_⟩
  rcases List.mem_append.mp hx with hx | hx
  · exact h.answers x hx
  · rw [List.mem_singleton.mp hx]
    exact h.buffer a hpending

/-- A read of an address without a pending write. If it brings a carrier there were no pending reads
of the address. -/
theorem await (h : Coherent s d) (hfree : countAddr a s.pendingWrQ = 0)
    (hread : s'.pendingRdQ = s.pendingRdQ ++ [s.fresh a false])
    (hwrite : s'.pendingWrQ = s.pendingWrQ)
    (hcarriers : ∀ b, (b = a → countAddr a s.pendingRdQ ≠ 0) →
      s'.carriers b false = s.carriers b false) : Coherent s' (d.await a) := by
  refine ⟨?_, hwrite ▸ h.buffer, hwrite ▸ h.array, fun x hx hpos => ?_, h.answers⟩
  · rw [hread]
    simp [Data.await, h.aligned, fresh]
  · rcases List.mem_append.mp hx with hx | hx
    · have hpending := h.expected_pending hx
      rw [hcarriers x.1 fun heq => heq ▸ hpending] at hpos
      exact h.live x hx hpos
    · rw [List.mem_singleton.mp hx]
      exact h.array a hfree

end Coherent

theorem ordered_init : Ordered (init : Controller c) where
  unified _ := ⟨rfl, rfl⟩
  lineup _ _ := List.Pairwise.nil
  apart _ _ hcount := absurd rfl hcount

theorem coherent_init (m : Addr → V) : Coherent (init : Controller c) (.init m) where
  aligned := rfl
  buffer _ hcount := absurd rfl hcount
  array _ _ := rfl
  live _ hx := by cases hx
  answers _ hx := by cases hx

theorem Added.coherent_write (hadd : Added s a true s') (h : Coherent s d) (v : V) :
    Coherent s' (d.write a v) := by
  cases hadd with
  | merge hpending => exact h.write v rfl hpending (fun _ _ => rfl) fun _ => rfl
  | write hfree =>
    let u : Controller c := { s with
      pendingWrQ := s.pendingWrQ ++ [s.fresh a true]
      returnQueue := s.returnQueue ++ [s.prompt a true] }
    have hqueue : s.queue (destination c true) = u.queue (destination c true) := by
      cases destination c true <;> rfl
    rw [hqueue]
    have hpending := setQueue_pending u (u.queue (destination c true) ++ [s.fresh a true])
      (destination c true)
    have hcount (b : Addr) : _ = countAddr b s.pendingWrQ + if a = b then 1 else 0 :=
      (congrArg (countAddr b) (congrFun hpending true)).trans
        (countAddr_append b s.pendingWrQ (s.fresh a true))
    refine h.write v (congrFun hpending false) ?_ (fun b hb => ?_) fun b => ?_
    · have hself := hcount a
      rw [if_pos rfl] at hself
      exact ne_of_eq_of_ne hself (Nat.succ_ne_zero _)
    · have hother := hcount b
      rw [if_neg fun heq => hb heq.symm] at hother
      exact hother
    · have hcarriers := carriers_setQueue_append u (destination c true) (s.fresh a true) b false
      rw [if_neg fun hkind => Bool.noConfusion hkind.2] at hcarriers
      exact hcarriers

theorem Added.coherent_read (hadd : Added s a false s') (h : Coherent s d) :
    Coherent s' (if countAddr a s.pendingWrQ = 0 then d.await a else d.forward a) := by
  cases hadd with
  | forward hpending =>
    rw [if_neg hpending]
    exact (h.forward hpending).same rfl rfl fun _ => le_refl _
  | join hfree hpending =>
    rw [if_pos hfree]
    exact h.await hfree rfl rfl fun _ _ => rfl
  | read hfree hfirst =>
    rw [if_pos hfree]
    let u : Controller c := { s with pendingRdQ := s.pendingRdQ ++ [s.fresh a false] }
    have hqueue : s.queue (destination c false) = u.queue (destination c false) := by
      cases destination c false <;> rfl
    rw [hqueue]
    have hpending := setQueue_pending u (u.queue (destination c false) ++ [s.fresh a false])
      (destination c false)
    refine h.await hfree (congrFun hpending false) (congrFun hpending true) fun b hb => ?_
    have hcarriers := carriers_setQueue_append u (destination c false) (s.fresh a false) b false
    rw [if_neg fun haddr => hb haddr.1.symm hfirst] at hcarriers
    exact hcarriers

/-! ## Runs -/

theorem Recorded.coherent {m : Addr → V} (h : Recorded m s d) :
    InStep s ∧ Carried s ∧ Ordered s ∧ Coherent s d := by
  induction h with
  | start => exact ⟨inStep_init, carried_init, ordered_init, coherent_init m⟩
  | @write s d _ _ a v ih =>
    obtain ⟨hs, hcarried, hordered, hcoherent⟩ := ih
    have hadded := addTransaction_added s a true
    exact ⟨hadded.inStep hs, hcarried.added hadded, hordered.added hcarried hadded,
      hadded.coherent_write hcoherent v⟩
  | @read s d _ _ a ih =>
    obtain ⟨hs, hcarried, hordered, hcoherent⟩ := ih
    have hadded := addTransaction_added s a false
    exact ⟨hadded.inStep hs, hcarried.added hadded, hordered.added hcarried hadded,
      hadded.coherent_read hcoherent⟩
  | returnDone _ hreturn ih =>
    obtain ⟨hs, hcarried, hordered, hcoherent⟩ := ih
    obtain ⟨before, after, -, -, rfl⟩ := returnDoneTrans_eq hreturn
    exact ⟨⟨hs.clk, hs.refreshes⟩, hcarried.same ⟨rfl, rfl, rfl⟩, hordered.same rfl rfl rfl rfl rfl,
      hcoherent.same rfl rfl fun _ => le_refl _⟩
  | @tick s s' d _ htick new hnew ih =>
    obtain ⟨hs, hcarried, hordered, hcoherent⟩ := ih
    have hmoves := clockTick_moves hs htick
    obtain ⟨hcarried, hordered, more, hmore, hcoherent⟩ :=
      hmoves.coherent hs hcarried hordered hcoherent
    have hsame : more = new := List.append_cancel_right (hmore.symm.trans hnew)
    rw [hsame] at hcoherent
    exact ⟨hmoves.inStep hs, hcarried, hordered, hcoherent⟩

/-- In every run the reads that wait are the pending reads of the controller, and every read that
has been served got the data of the latest write that was accepted before it. -/
theorem reads_get_latest_write {m : Addr → V} (h : Recorded m s d) :
    d.expected.map Prod.fst = s.pendingRdQ.map Transaction.addr ∧
      ∀ x ∈ d.answers, x.2 = some x.1 := by
  obtain ⟨-, -, -, hcoherent⟩ := h.coherent
  exact ⟨hcoherent.aligned, hcoherent.answers⟩

/-! ## Evaluating runs -/

/-- A transaction with its data, or a cycle. -/
inductive DataAction (V : Type)
  | write (a : Addr) (v : V)
  | read (a : Addr)
  | tick

/-- A step of a controller with the contents of the memory. -/
def recordStep (x : Controller c × Data V) : DataAction V → Option (Controller c × Data V)
  | .write a v =>
    if x.1.willAcceptTransaction true then some (x.1.addTransaction a true, x.2.write a v) else none
  | .read a =>
    if x.1.willAcceptTransaction false then
      some (x.1.addTransaction a false,
        if countAddr a x.1.pendingWrQ = 0 then x.2.await a else x.2.forward a)
    else none
  | .tick =>
    x.1.clockTick.toOption.map fun s =>
      (s, x.2.commands (s.cmdTrace.take (s.cmdTrace.length - x.1.cmdTrace.length)))

theorem Recorded.of_reach {m : Addr → V} {x : Controller c × Data V}
    (h : Reach (Steps recordStep) Free (init, .init m) x) : Recorded m x.1 x.2 := by
  refine h.invariant (fun x => Recorded m x.1 x.2) .start ?_
  intro x action y _ hx _ hstep
  cases action with
  | write a v =>
    simp only [Steps, recordStep] at hstep
    split at hstep
    · rename_i haccept
      cases hstep
      exact hx.write haccept a v
    · cases hstep
  | read a =>
    simp only [Steps, recordStep] at hstep
    split at hstep
    · rename_i haccept
      cases hstep
      exact hx.read haccept a
    · cases hstep
  | tick =>
    obtain ⟨s, htick, rfl⟩ := Option.map_eq_some_iff.mp hstep
    have htick := ok_of_toOption htick
    obtain ⟨hs, hcarried, hordered, hcoherent⟩ := hx.coherent
    obtain ⟨-, -, new, hnew, -⟩ :=
      (clockTick_moves hs htick).coherent hs hcarried hordered hcoherent
    have htake : s.cmdTrace.take (s.cmdTrace.length - x.1.cmdTrace.length) = new := by
      simp [hnew]
    exact hx.tick htick (htake ▸ hnew)

/-- Nine writes, the first of which is replaced by another one of its address, start to drain. A
read of that address gets the new data from the buffer, and a read after the `WRITE` command gets
it from the array. -/
theorem reads_get_latest_write_forward : ∃ (s : Controller .hbm2) (d : Data Nat),
    Recorded (fun _ => 0) s d ∧
      (s.cmdTrace.filter fun e => e.cmd.hexAddr = 64).map (fun e => e.cmd.cmdType) =
        [.read, .write, .activate] ∧
      d.answers = [(6, some 6), (6, some 6)] ∧ ∀ x ∈ d.answers, x.2 = some x.1 := by
  obtain ⟨⟨s, d⟩, hreach, hp⟩ := Reach.of_run recordStep Free
    ((init, .init fun _ => 0) : Controller .hbm2 × Data Nat)
    ([.write 64 5, .write 64 6, .write 0x4000 1, .write 0x8000 1, .write 0xc000 1,
      .write 0x10000 1, .write 0x14000 1, .write 0x18000 1, .write 0x1c000 1, .write 0x20000 1,
      .read 64] ++ List.replicate 16 .tick ++ [.read 64] ++ List.replicate 28 .tick)
    (fun x => (x.1.cmdTrace.filter fun e => e.cmd.hexAddr = 64).map (fun e => e.cmd.cmdType) =
      [.read, .write, .activate] ∧ x.2.answers = [(6, some 6), (6, some 6)]) (by decide +kernel)
  obtain ⟨htrace, hanswers⟩ := of_decide_eq_true hp
  have hrecorded : Recorded (fun _ => 0) s d := .of_reach hreach
  exact ⟨s, d, hrecorded, htrace, hanswers, (reads_get_latest_write hrecorded).2⟩

end Controller

end NetSim.Memory
