import NetSim.Memory.Runs

/-!
# The carriers of the pending transactions

A pending read or write is carried to the device by a transaction in a queue of the controller and
then by a command in a command queue. No address has more than one carrier of a kind, and a carrier
is always about a pending transaction (`Carried`), so `IssueCommand` and `EraseRWCommand` find what
they look for.
-/

namespace NetSim.Memory

open Common Library

variable {c : Config}

/-- The command queue of an address. -/
def queueOf (c : Config) (a : Addr) : Nat := Config.getQueueIndex (c.addressMapping a).bank

namespace Controller

variable {s s' : Controller c} {r : Command c} {a : Addr} {w : Bool}

/-! ## Commands of transactions -/

@[simp] theorem transToCommand_hexAddr : (transToCommand a w : Command c).hexAddr = a := rfl

@[simp] theorem transToCommand_bank :
    (transToCommand a w : Command c).bank = (c.addressMapping a).bank := rfl

@[simp] theorem transToCommand_isWrite : (transToCommand a w : Command c).cmdType.isWrite = w := by
  unfold transToCommand
  cases c.rowBufPolicy <;> cases w <;> rfl

@[simp] theorem transToCommand_isRead : (transToCommand a w : Command c).cmdType.isRead = !w := by
  unfold transToCommand
  cases c.rowBufPolicy <;> cases w <;> rfl

@[simp] theorem transToCommand_isReadWrite :
    (transToCommand a w : Command c).cmdType.isReadWrite = true := by
  unfold CommandType.isReadWrite
  rw [transToCommand_isRead, transToCommand_isWrite]
  cases w <;> rfl

theorem transToCommand_inj {a' : Addr} {w' : Bool} :
    (transToCommand a w : Command c) = transToCommand a' w' ↔ a = a' ∧ w = w' := by
  constructor
  · intro heq
    have hwrite := congrArg (fun cmd : Command c => cmd.cmdType.isWrite) heq
    simp only [transToCommand_isWrite] at hwrite
    exact ⟨congrArg Command.hexAddr heq, hwrite⟩
  · rintro ⟨rfl, rfl⟩
    rfl

/-- The command of a transaction, in the queue of its address. -/
def Placed (i : Nat) (cmd : Command c) : Prop :=
  cmd = transToCommand cmd.hexAddr cmd.cmdType.isWrite ∧ queueOf c cmd.hexAddr = i

/-- All commands of the queues are placed. -/
def AllPlaced (s : Controller c) : Prop := ∀ i, ∀ cmd ∈ s.cmdQueue.queues i, Placed i cmd

theorem Placed.isReadWrite {i : Nat} {cmd : Command c} (h : Placed i cmd) :
    cmd.cmdType.isReadWrite = true := by
  rw [h.1]
  exact transToCommand_isReadWrite

theorem Placed.isRead {i : Nat} {cmd : Command c} (h : Placed i cmd) :
    cmd.cmdType.isRead = !cmd.cmdType.isWrite := by
  conv_lhs => rw [h.1]
  exact transToCommand_isRead

theorem Placed.index {i : Nat} {cmd : Command c} (h : Placed i cmd) :
    Config.getQueueIndex cmd.bank = i := by
  rw [h.1]
  exact h.2

/-! ## Carriers -/

/-- The transactions of a controller that are pending. -/
def pending (s : Controller c) : Bool → List Transaction
  | false => s.pendingRdQ
  | true => s.pendingWrQ

/-- The number of waiting transactions with the property `p`. -/
def waitingCount (s : Controller c) (p : Transaction → Bool) : Nat :=
  s.unifiedQueue.countP p + s.readQueue.countP p + s.writeBuffer.countP p

def carries (a : Addr) (w : Bool) (t : Transaction) : Bool := t.addr = a && t.isWrite = w

/-- The number of carriers of the reads or of the writes of an address. -/
def carriers (s : Controller c) (a : Addr) (w : Bool) : Nat :=
  s.waitingCount (carries a w) + (s.cmdQueue.queues (queueOf c a)).count (transToCommand a w)

theorem waitingCount_setQueue (s : Controller c) (ts : List Transaction) (src : Source)
    (p : Transaction → Bool) :
    (s.setQueue ts src).waitingCount p + (s.queue src).countP p =
      s.waitingCount p + ts.countP p := by
  cases src <;> simp only [waitingCount, setQueue, queue] <;> omega

theorem setQueue_cmdQueue (s : Controller c) (ts : List Transaction) (src : Source) :
    (s.setQueue ts src).cmdQueue = s.cmdQueue := by
  cases src <;> rfl

theorem setQueue_pending (s : Controller c) (ts : List Transaction) (src : Source) :
    (s.setQueue ts src).pending = s.pending := by
  funext w
  cases src <;> cases w <;> rfl

/-- A command that leaves its queue. -/
theorem leaves_queues {i : Nat} (hs : AllPlaced s) (hr : r ∈ s.cmdQueue.queues i) :
    (s.leaves r).cmdQueue.queues =
      Function.update s.cmdQueue.queues i ((s.cmdQueue.queues i).erase r) := by
  have hplaced := hs i r hr
  have hsame : ∀ x ∈ s.cmdQueue.queues i,
      (decide (r.hexAddr = x.hexAddr) && decide (r.cmdType = x.cmdType)) = (x == r) := by
    intro x hx
    by_cases heq : x = r
    · simp [heq]
    · have hne : ¬ (r.hexAddr = x.hexAddr ∧ r.cmdType = x.cmdType) := by
        rintro ⟨haddr, htype⟩
        refine heq ?_
        rw [(hs i x hx).1, hplaced.1, haddr, htype]
      rw [beq_eq_false_iff_ne.mpr heq, Bool.and_eq_false_iff, decide_eq_false_iff_not,
        decide_eq_false_iff_not]
      exact not_and_or.mp hne
  have herase : (s.cmdQueue.queues i).eraseP
      (fun x => decide (r.hexAddr = x.hexAddr) && decide (r.cmdType = x.cmdType)) =
      (s.cmdQueue.queues i).erase r := by
    generalize s.cmdQueue.queues i = l at hsame
    induction l with
    | nil => rfl
    | cons x l ih =>
      rw [List.eraseP_cons, List.erase_cons, hsame x List.mem_cons_self,
        ih fun y hy => hsame y (List.mem_cons_of_mem _ hy)]
      cases x == r <;> rfl
  unfold leaves
  rw [if_pos hplaced.isReadWrite]
  unfold CommandQueue.erased
  dsimp only
  rw [hplaced.index, herase]

theorem leaves_allPlaced {i : Nat} (hs : AllPlaced s) (hr : r ∈ s.cmdQueue.queues i) :
    AllPlaced (s.leaves r) := by
  intro j cmd hcmd
  rw [leaves_queues hs hr] at hcmd
  by_cases hj : j = i
  · subst hj
    rw [Function.update_self] at hcmd
    exact hs j cmd (List.mem_of_mem_erase hcmd)
  · rw [Function.update_of_ne hj] at hcmd
    exact hs j cmd hcmd

/-- The carriers after a command has left its queue. -/
theorem carriers_leaves {i : Nat} (hs : AllPlaced s) (hr : r ∈ s.cmdQueue.queues i) :
    (s.leaves r).carriers a w =
      s.carriers a w - if a = r.hexAddr ∧ w = r.cmdType.isWrite then 1 else 0 := by
  have hplaced := hs i r hr
  have hwaiting : (s.leaves r).waitingCount (carries a w) = s.waitingCount (carries a w) := by
    obtain ⟨q, hq⟩ := s.leaves_eq r
    rw [hq]
    rfl
  unfold carriers
  rw [hwaiting, leaves_queues hs hr]
  by_cases ha : a = r.hexAddr ∧ w = r.cmdType.isWrite
  · obtain ⟨rfl, rfl⟩ := ha
    have hpos := List.count_pos_iff.mpr hr
    rw [if_pos ⟨rfl, rfl⟩, hplaced.2, Function.update_self, ← hplaced.1, List.count_erase_self]
    omega
  · rw [if_neg ha, Nat.sub_zero]
    by_cases hi : queueOf c a = i
    · rw [hi, Function.update_self, List.count_erase_of_ne]
      rw [hplaced.1, Ne, transToCommand_inj]
      exact ha
    · rw [Function.update_of_ne hi]

theorem carriers_pos {i : Nat} (hs : AllPlaced s) (hr : r ∈ s.cmdQueue.queues i) :
    0 < s.carriers r.hexAddr r.cmdType.isWrite := by
  have hplaced := hs i r hr
  have hpos := List.count_pos_iff.mpr hr
  unfold carriers
  rw [hplaced.2, ← hplaced.1]
  omega

/-- The command queues after a transaction has gone to them. -/
theorem scheduled_queues {src : Source} {before after : List Transaction} {t : Transaction}
    (haccept : s.cmdQueue.willAcceptCommand (c.addressMapping t.addr).bank = true) :
    (s.scheduled src before t after).cmdQueue.queues =
      Function.update s.cmdQueue.queues (queueOf c t.addr)
        (s.cmdQueue.queues (queueOf c t.addr) ++ [transToCommand t.addr t.isWrite]) := by
  have hroom : (s.cmdQueue.queues (queueOf c t.addr)).length < c.cmdQueueSize := by
    simpa [CommandQueue.willAcceptCommand, queueOf] using haccept
  unfold scheduled
  rw [setQueue_cmdQueue]
  unfold CommandQueue.addCommand
  dsimp only
  rw [if_pos (by exact hroom)]
  rfl

theorem carriers_scheduled {src : Source} {before after : List Transaction} {t : Transaction}
    (hqueue : s.queue src = before ++ t :: after)
    (haccept : s.cmdQueue.willAcceptCommand (c.addressMapping t.addr).bank = true) :
    (s.scheduled src before t after).carriers a w = s.carriers a w := by
  have hwaiting := waitingCount_setQueue
    { s with cmdQueue := (s.cmdQueue.addCommand (transToCommand t.addr t.isWrite)).2 }
    (before ++ after) src (carries a w)
  have hqueue' : queue { s with
      cmdQueue := (s.cmdQueue.addCommand (transToCommand t.addr t.isWrite)).2 } src =
      before ++ t :: after := by
    cases src <;> exact hqueue
  rw [hqueue', List.countP_append, List.countP_append, List.countP_cons] at hwaiting
  have hsame : waitingCount { s with
      cmdQueue := (s.cmdQueue.addCommand (transToCommand t.addr t.isWrite)).2 } (carries a w) =
      s.waitingCount (carries a w) := rfl
  rw [hsame] at hwaiting
  have hwaiting : (s.scheduled src before t after).waitingCount (carries a w) +
      (if carries a w t = true then 1 else 0) = s.waitingCount (carries a w) := by
    unfold scheduled
    omega
  unfold carriers
  rw [scheduled_queues haccept]
  by_cases ht : t.addr = a ∧ t.isWrite = w
  · obtain ⟨rfl, rfl⟩ := ht
    rw [if_pos (by simp [carries])] at hwaiting
    rw [Function.update_self, List.count_append, List.count_singleton_self]
    omega
  · rw [if_neg (by simpa [carries] using ht)] at hwaiting
    by_cases hi : queueOf c a = queueOf c t.addr
    · rw [hi, Function.update_self, List.count_append, List.count_singleton, if_neg]
      · omega
      · rw [beq_iff_eq, transToCommand_inj]
        exact ht
    · rw [Function.update_of_ne hi]
      omega

theorem carriers_setQueue_append (s : Controller c) (src : Source) (t : Transaction) (a : Addr)
    (w : Bool) :
    (s.setQueue (s.queue src ++ [t]) src).carriers a w =
      s.carriers a w + if t.addr = a ∧ t.isWrite = w then 1 else 0 := by
  have hwaiting := waitingCount_setQueue s (s.queue src ++ [t]) src (carries a w)
  have hone : [t].countP (carries a w) = if t.addr = a ∧ t.isWrite = w then 1 else 0 := by
    simp [List.countP_cons, carries]
  rw [List.countP_append, hone] at hwaiting
  unfold carriers
  rw [setQueue_cmdQueue]
  omega

theorem countAddr_append (a : Addr) (ts : List Transaction) (t : Transaction) :
    countAddr a (ts ++ [t]) = countAddr a ts + if t.addr = a then 1 else 0 := by
  simp [countAddr, List.countP_cons]

/-- The queues and the pending transactions are the same. -/
structure SameQueues (s s' : Controller c) : Prop where
  queues : s'.cmdQueue.queues = s.cmdQueue.queues
  waiting : s'.waitingCount = s.waitingCount
  pending : s'.pending = s.pending

theorem SameQueues.carriers (h : SameQueues s s') : s'.carriers = s.carriers := by
  funext a w
  unfold Controller.carriers
  rw [h.queues, h.waiting]

/-- A new transaction leaves the carriers and the pending transactions alone, is pending with a
carrier of its own, or is a read that joins a pending one. -/
theorem Added.effect (h : Added s a w s') :
    s'.cmdQueue.queues = s.cmdQueue.queues ∧
      (SameQueues s s' ∨
      ((∀ b v, s'.carriers b v = s.carriers b v + if a = b ∧ w = v then 1 else 0) ∧
        (∀ b v, countAddr b (s'.pending v) =
          countAddr b (s.pending v) + if a = b ∧ w = v then 1 else 0) ∧
        countAddr a (s.pending w) = 0) ∨
      (w = false ∧ s'.carriers = s.carriers ∧
        (∀ b v, countAddr b (s'.pending v) =
          countAddr b (s.pending v) + if a = b ∧ w = v then 1 else 0) ∧
        countAddr a (s.pending w) ≠ 0)) := by
  have hpending {v : Controller c} {t : Transaction} (hself : v.pending t.isWrite =
      s.pending t.isWrite ++ [t]) (hother : v.pending (!t.isWrite) = s.pending (!t.isWrite))
      (b : Addr) (u : Bool) : countAddr b (v.pending u) =
        countAddr b (s.pending u) + if t.addr = b ∧ t.isWrite = u then 1 else 0 := by
    by_cases hu : t.isWrite = u
    · subst hu
      rw [hself, countAddr_append]
      simp
    · have hu : u = !t.isWrite := by
        cases u <;> simp_all
      rw [hu, hother]
      simp
  cases h with
  | write hfree =>
    let v : Controller c := { s with
      pendingWrQ := s.pendingWrQ ++ [s.fresh a true]
      returnQueue := s.returnQueue ++ [s.prompt a true] }
    have hqueue : s.queue (destination c true) = v.queue (destination c true) := by
      cases destination c true <;> rfl
    rw [hqueue]
    refine ⟨by rw [setQueue_cmdQueue], Or.inr (Or.inl ⟨?_, ?_, hfree⟩)⟩
    · exact carriers_setQueue_append v _ (s.fresh a true)
    · rw [setQueue_pending]
      exact hpending (v := v) (t := s.fresh a true) rfl rfl
  | merge | forward => exact ⟨rfl, Or.inl ⟨rfl, rfl, rfl⟩⟩
  | read hfree hfirst =>
    let v : Controller c := { s with pendingRdQ := s.pendingRdQ ++ [s.fresh a false] }
    have hqueue : s.queue (destination c false) = v.queue (destination c false) := by
      cases destination c false <;> rfl
    rw [hqueue]
    refine ⟨by rw [setQueue_cmdQueue], Or.inr (Or.inl ⟨?_, ?_, hfirst⟩)⟩
    · exact carriers_setQueue_append v _ (s.fresh a false)
    · rw [setQueue_pending]
      exact hpending (v := v) (t := s.fresh a false) rfl rfl
  | join hfree hfirst =>
    exact ⟨rfl, Or.inr (Or.inr ⟨rfl, rfl, hpending (t := s.fresh a false) rfl rfl, hfirst⟩)⟩

/-! ## The invariant -/

/-- Every carrier is about a pending transaction, and no address has two of a kind. -/
structure Carried (s : Controller c) : Prop where
  placed : AllPlaced s
  one : ∀ a w, s.carriers a w ≤ 1
  pending : ∀ a w, s.carriers a w ≤ countAddr a (s.pending w)
  single : ∀ a, countAddr a s.pendingWrQ ≤ 1

theorem Carried.same (h : Carried s) (hsame : SameQueues s s') : Carried s' where
  placed := by
    unfold AllPlaced
    rw [hsame.queues]
    exact h.placed
  one := by
    rw [hsame.carriers]
    exact h.one
  pending := by
    rw [hsame.carriers, hsame.pending]
    exact h.pending
  single a := by
    have hpending : s'.pending true = s.pending true := by rw [hsame.pending]
    show countAddr a (s'.pending true) ≤ 1
    rw [hpending]
    exact h.single a

theorem countAddr_filter_ne (b : Addr) (ts : List Transaction) :
    countAddr a (ts.filter fun t => !decide (t.addr = b)) =
      if a = b then 0 else countAddr a ts := by
  unfold countAddr
  rw [List.countP_filter]
  by_cases hab : a = b
  · subst hab
    rw [if_pos rfl, List.countP_eq_zero]
    simp
  · rw [if_neg hab]
    refine List.countP_congr fun t _ => ?_
    simp only [Bool.and_eq_true, decide_eq_true_eq, Bool.not_eq_true', decide_eq_false_iff_not]
    refine ⟨fun h => h.1, fun h => ⟨h, fun hb => hab (h.symm.trans hb)⟩⟩

theorem countAddr_eraseP (b : Addr) (ts : List Transaction) :
    countAddr a (ts.eraseP fun t => t.addr = b) =
      countAddr a ts - if a = b then 1 else 0 := by
  unfold countAddr
  induction ts with
  | nil => simp
  | cons t ts ih =>
    rw [List.eraseP_cons]
    by_cases ht : t.addr = b
    · simp only [ht, decide_true, cond_true, List.countP_cons]
      by_cases hab : a = b
      · simp [hab]
      · simp [hab, Ne.symm hab]
    · simp only [ht, decide_false, cond_false, List.countP_cons, ih]
      by_cases hab : a = b
      · subst hab
        simp [ht]
      · simp [hab]

/-- The pending transactions after a command. -/
theorem issued_pending (s : Controller c) (r : Command c) (a : Addr) (w : Bool) :
    countAddr a ((s.issued r).pending w) =
      if w then
        if r.cmdType.isWrite then countAddr a s.pendingWrQ - (if a = r.hexAddr then 1 else 0)
        else countAddr a s.pendingWrQ
      else if r.cmdType.isRead ∧ a = r.hexAddr then 0 else countAddr a s.pendingRdQ := by
  cases w with
  | true =>
    show countAddr a (if r.cmdType.isWrite then _ else _) = _
    rw [if_pos rfl]
    split
    · exact countAddr_eraseP ..
    · rfl
  | false =>
    rw [if_neg Bool.false_ne_true]
    show countAddr a (if r.cmdType.isRead then _ else _) = _
    cases hread : r.cmdType.isRead with
    | true =>
      rw [if_pos rfl, countAddr_filter_ne]
      simp
    | false => simp

/-- A read or a write comes from its own queue. -/
theorem Origin.mem_queue (h : Origin s r) (hs : InStep s) (hrw : r.cmdType.isReadWrite = true) :
    ∃ i before after, s.cmdQueue.queues i = before ++ r :: after ∧
      (r.cmdType.isWrite = true → CommandQueue.hasRWDependency before r = false) := by
  cases h with
  | refresh ref rest hfront hready =>
    have href := hs.refreshes ref (by rw [hfront]; exact List.mem_cons_self)
    obtain ⟨-, -, -, -, -, hkind⟩ := ChannelState.getReadyCommand_ready hready
    rcases hkind with hkind | hkind | ⟨hkind, -⟩
    · rw [hkind, CommandType.isReadWrite_of_isRefresh href] at hrw
      cases hrw
    · rw [hkind] at hrw
      cases hrw
    · simp [CommandType.isReadWrite_of_isRefresh href] at hkind
  | queue i before cmd after hqueue hfree hready hmay =>
    obtain ⟨-, -, -, -, hself, hkind⟩ := ChannelState.getReadyCommand_ready hready
    have htype : r.cmdType = cmd.cmdType := by
      rcases hkind with hkind | hkind | ⟨-, hkind | hkind⟩
      · exact hkind
      all_goals
        rw [hkind] at hrw
        cases hrw
    obtain rfl := hself htype
    refine ⟨i, before, after, hqueue, fun hwrite => ?_⟩
    unfold CommandQueue.mayIssue at hmay
    rw [if_neg, if_pos hwrite] at hmay
    · simpa using hmay
    · intro hpre
      rw [hpre] at hrw
      cases hrw
  | power cmd _ hcmd hready =>
    obtain ⟨-, -, -, -, -, hkind⟩ := ChannelState.getReadyCommand_ready hready
    have hcmd : cmd.cmdType.isReadWrite = false := by
      rcases hcmd with hcmd | hcmd <;> rw [hcmd] <;> rfl
    rcases hkind with hkind | hkind | ⟨hkind, -⟩
    · rw [hkind, hcmd] at hrw
      cases hrw
    · rw [hkind] at hrw
      cases hrw
    · simp [hcmd] at hkind

/-- A command that is not a read or a write leaves the queues alone. -/
theorem issued_other_same (hrw : r.cmdType.isReadWrite = false) :
    SameQueues s ((s.leaves r).issued r) := by
  have hread : r.cmdType.isRead = false := by
    simp only [CommandType.isReadWrite, Bool.or_eq_false_iff] at hrw
    exact hrw.1
  have hwrite : r.cmdType.isWrite = false := by
    simp only [CommandType.isReadWrite, Bool.or_eq_false_iff] at hrw
    exact hrw.2
  refine ⟨?_, ?_, ?_⟩
  · simp [leaves, hrw, issued]
  · simp only [leaves, hrw]
    rfl
  · funext w
    cases w <;> simp [leaves, hrw, issued, pending, hread, hwrite]

theorem scheduled_pending (s : Controller c) (src : Source) (before after : List Transaction)
    (t : Transaction) : (s.scheduled src before t after).pending = s.pending :=
  setQueue_pending _ _ _

namespace Carried

theorem leaves {i : Nat} (h : Carried s) (hr : r ∈ s.cmdQueue.queues i) : Carried (s.leaves r) := by
  have hpending : (s.leaves r).pending = s.pending := by
    obtain ⟨q, hq⟩ := s.leaves_eq r
    rw [hq]
    funext w
    cases w <;> rfl
  refine ⟨leaves_allPlaced h.placed hr, fun a w => ?_, fun a w => ?_, fun a => ?_⟩
  · rw [carriers_leaves h.placed hr]
    have hone := h.one a w
    omega
  · rw [carriers_leaves h.placed hr, hpending]
    have hpend := h.pending a w
    omega
  · show countAddr a ((s.leaves r).pending true) ≤ 1
    rw [hpending]
    exact h.single a

/-- A read or a write that leaves its queue and is issued. -/
theorem issued {i : Nat} (h : Carried s) (hr : r ∈ s.cmdQueue.queues i) :
    Carried ((s.leaves r).issued r) := by
  have hplaced := h.placed i r hr
  have hleft := h.leaves hr
  have hcarriers : ((s.leaves r).issued r).carriers = (s.leaves r).carriers := rfl
  have hpend : (s.leaves r).pending = s.pending := by
    obtain ⟨q, hq⟩ := s.leaves_eq r
    rw [hq]
    funext w
    cases w <;> rfl
  have hrd : (s.leaves r).pendingRdQ = s.pendingRdQ := congrFun hpend false
  have hwr : (s.leaves r).pendingWrQ = s.pendingWrQ := congrFun hpend true
  refine ⟨hleft.placed, hleft.one, fun a w => ?_, fun a => ?_⟩
  · rw [hcarriers, carriers_leaves h.placed hr, issued_pending, hrd, hwr, hplaced.isRead]
    have hold := h.pending a w
    have hone := h.one a w
    cases w with
    | true =>
      cases hwrite : r.cmdType.isWrite with
      | true =>
        have hold : s.carriers a true ≤ countAddr a s.pendingWrQ := hold
        by_cases ha : a = r.hexAddr
        · rw [if_pos ⟨ha, rfl⟩, if_pos rfl, if_pos rfl, if_pos ha]
          omega
        · simpa [ha] using hold
      | false => simpa [Controller.pending] using hold
    | false =>
      cases hwrite : r.cmdType.isWrite with
      | true => simpa [Controller.pending] using hold
      | false =>
        by_cases ha : a = r.hexAddr
        · rw [if_pos ⟨ha, rfl⟩]
          omega
        · simpa [ha, Controller.pending] using hold
  · have hcount := issued_pending (s.leaves r) r a true
    rw [if_pos rfl, hwr] at hcount
    show countAddr a (((s.leaves r).issued r).pending true) ≤ 1
    rw [hcount]
    have hsingle := h.single a
    split
    · omega
    · exact hsingle

theorem scheduled {src : Source} {before after : List Transaction} {t : Transaction}
    (h : Carried s) (hqueue : s.queue src = before ++ t :: after)
    (haccept : s.cmdQueue.willAcceptCommand (c.addressMapping t.addr).bank = true) :
    Carried (s.scheduled src before t after) := by
  have hpending := scheduled_pending s src before after t
  refine ⟨?_, fun a w => ?_, fun a w => ?_, fun a => ?_⟩
  · intro i cmd hcmd
    rw [scheduled_queues haccept] at hcmd
    by_cases hi : i = queueOf c t.addr
    · subst hi
      rw [Function.update_self] at hcmd
      rcases List.mem_append.mp hcmd with hcmd | hcmd
      · exact h.placed _ cmd hcmd
      · rw [List.mem_singleton.mp hcmd]
        exact ⟨by simp, rfl⟩
    · rw [Function.update_of_ne hi] at hcmd
      exact h.placed i cmd hcmd
  · rw [carriers_scheduled hqueue haccept]
    exact h.one a w
  · rw [carriers_scheduled hqueue haccept, hpending]
    exact h.pending a w
  · show countAddr a ((s.scheduled src before t after).pending true) ≤ 1
    rw [hpending]
    exact h.single a

theorem move (h : Carried s) (hs : InStep s) (hmove : Move s s') : Carried s' := by
  cases hmove with
  | due | turn | idle | drain | tick => exact h.same ⟨rfl, rfl, rfl⟩
  | @issue r horigin hissue =>
    cases hrw : r.cmdType.isReadWrite with
    | true =>
      obtain ⟨i, before, after, hqueue, -⟩ := horigin.mem_queue hs hrw
      exact h.issued (i := i) (by rw [hqueue]; simp)
    | false => exact h.same (issued_other_same hrw)
  | drop horigin hrw =>
    obtain ⟨i, before, after, hqueue, -⟩ := horigin.mem_queue hs hrw
    exact h.leaves (i := i) (by rw [hqueue]; simp)
  | schedule hqueue hsrc haccept => exact h.scheduled hqueue haccept

theorem added (h : Carried s) (hadd : Added s a w s') : Carried s' := by
  obtain ⟨hqueues, hsame | ⟨hcarriers, hcount, hnone⟩ | ⟨rfl, hcarriers, hcount, -⟩⟩ :=
    hadd.effect
  · exact h.same hsame
  · refine ⟨?_, fun b v => ?_, fun b v => ?_, fun b => ?_⟩
    · unfold AllPlaced
      rw [hqueues]
      exact h.placed
    · have hfree := h.pending a w
      have hone := h.one b v
      rw [hcarriers]
      split
      · rename_i hb
        obtain ⟨rfl, rfl⟩ := hb
        omega
      · exact hone
    · have hold := h.pending b v
      rw [hcarriers, hcount]
      omega
    · have hold : countAddr b (s.pending true) ≤ 1 := h.single b
      show countAddr b (s'.pending true) ≤ 1
      rw [hcount]
      split
      · rename_i hb
        obtain ⟨rfl, rfl⟩ := hb
        omega
      · exact hold
  · refine ⟨?_, ?_, fun b v => ?_, fun b => ?_⟩
    · unfold AllPlaced
      rw [hqueues]
      exact h.placed
    · rw [hcarriers]
      exact h.one
    · have hold := h.pending b v
      rw [hcarriers, hcount]
      omega
    · have hold : countAddr b (s.pending true) ≤ 1 := h.single b
      show countAddr b (s'.pending true) ≤ 1
      rw [hcount]
      simpa using hold

end Carried

theorem carried_init : Carried (init : Controller c) where
  placed i cmd hcmd := by simp [init, CommandQueue.init] at hcmd
  one a w := by simp [carriers, waitingCount, init, CommandQueue.init]
  pending a w := by simp [carriers, waitingCount, init, CommandQueue.init]
  single a := by simp [init, countAddr]

theorem Run.carried (h : Run s) : Carried s ∧ InStep s := by
  refine h.invariant Carried carried_init ?_ ?_ ?_
  · intro s s' hs hcarried hmove
    exact hcarried.move hs hmove
  · intro s addr isWrite s' hcarried _ hadded
    exact hcarried.added hadded
  · intro s before t after hcarried _
    exact hcarried.same ⟨rfl, rfl, rfl⟩

end Controller

end NetSim.Memory
