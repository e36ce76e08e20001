import NetSim.Memory.Progress

/-!
# A controller does not stall

Every command delays others for a bounded number of cycles (`Config.Paced`). When all delays have
passed (`Settled`), whatever waits is ready, or the command is that it needs first; and if the first
command of a queue has to leave its row to later ones, one of these can be issued. So a controller
for which a refresh or a command waits issues a command (`Controller.firstCommand_settled`).
-/

namespace NetSim.Memory

open Common Library

variable {c : Config} {cmd r : Command c} {clk h : Nat}

/-! ## Delays -/

/-- The cycles for which a command delays others: a read or a write, an activation, a precharge, a
refresh. -/
structure Pace where
  burst : Nat
  activate : Nat
  precharge : Nat
  refresh : Nat

namespace Pace

def of (p : Pace) : CommandType → Nat
  | .read | .readPrecharge | .write | .writePrecharge => p.burst
  | .activate => p.activate
  | .precharge => p.precharge
  | .refresh | .refreshBank => p.refresh
  | .srefEnter | .srefExit => 0

/-- The delays after a command are natural numbers that keep the pace. -/
def Bounds (p : Pace) (t : CommandType) (delays : List (CommandType × Int)) : Prop :=
  ∀ d ∈ delays, 0 ≤ d.2 ∧ d.2 ≤ p.of t

instance (p : Pace) (t : CommandType) (delays : List (CommandType × Int)) :
    Decidable (p.Bounds t delays) :=
  inferInstanceAs (Decidable (∀ d ∈ delays, 0 ≤ d.2 ∧ d.2 ≤ p.of t))

end Pace

/-- The commands of a controller that does not use self refresh. -/
def Config.uses (c : Config) : CommandType → Bool
  | .refresh => c.refreshPolicy ≠ .bankLevelStaggered
  | .refreshBank => c.refreshPolicy = .bankLevelStaggered
  | .srefEnter | .srefExit => false
  | .read | .readPrecharge | .write | .writePrecharge | .activate | .precharge => true

/-- The tables of `Timing` keep a pace. -/
structure Config.Paced (c : Config) (p : Pace) : Prop where
  sameBank : ∀ t, c.uses t = true → p.Bounds t (c.sameBank t)
  sameBankgroup : ∀ t, c.uses t = true → p.Bounds t (c.otherBanksSameBankgroup t)
  sameRank : ∀ t, c.uses t = true → p.Bounds t (c.otherBankgroupsSameRank t)
  otherRanks : 1 < c.ranks → ∀ t, c.uses t = true → p.Bounds t (c.otherRanks t)
  refresh : c.uses .refresh = true → p.Bounds .refresh (c.sameRank .refresh)
  fourActivations : 0 ≤ c.timing.tFAW ∧ c.timing.tFAW ≤ p.activate
  manyActivations : c.protocol.isGDDR = true → 0 ≤ c.timing.t32AW ∧ c.timing.t32AW ≤ p.activate

theorem Config.Paced.delaysOn {p : Pace} (hp : c.Paced p) {t : CommandType}
    (ht : c.uses t = true) (a b : BankId c) : p.Bounds t (ChannelState.delaysOn t a b) := by
  unfold ChannelState.delaysOn
  split
  · rename_i hrank
    have hrefresh : t = .refresh := by
      cases t <;> simp_all [CommandType.isRankCMD, Config.uses]
    subst hrefresh
    split
    · exact hp.refresh ht
    · simp [Pace.Bounds]
  · split
    · split
      · split
        · exact hp.sameBank t ht
        · exact hp.sameBankgroup t ht
      · exact hp.sameRank t ht
    · rename_i hrank
      refine hp.otherRanks ?_ t ht
      by_contra hone
      refine hrank (Fin.ext ?_)
      have hb := b.rank.isLt
      have ha := a.rank.isLt
      omega

theorem addDelay_le {d : Int} {n : Nat} (hd : 0 ≤ d) (hn : d ≤ n) : addDelay clk d ≤ clk + n := by
  have heq : (addDelay clk d : Int) = clk + d := addDelay_eq hd
  omega

/-- The earliest cycles after the delays of a command. -/
theorem BankState.updateTimings_le_of {x : BankState} {delays : List (CommandType × Int)}
    {p : Pace} {t u : CommandType} (hd : p.Bounds t delays) (hx : x.cmdTiming u ≤ h) :
    (x.updateTimings delays clk).cmdTiming u ≤ max h (clk + p.of t) := by
  unfold updateTimings
  refine foldl_invariant (fun y : BankState => y.cmdTiming u ≤ max h (clk + p.of t)) ?_
    (hx.trans (Nat.le_max_left ..))
  intro y d hmem hy
  have hdelay : addDelay clk d.2 ≤ clk + p.of t := addDelay_le (hd d hmem).1 (hd d hmem).2
  unfold updateTiming
  dsimp only
  by_cases hu : u = d.1
  · subst hu
    rw [Function.update_self]
    exact max_le hy (hdelay.trans (Nat.le_max_right ..))
  · rw [Function.update_of_ne hu]
    exact hy

/-- All delays have passed at the cycle `h`. -/
structure Settled (s : ChannelState c) (h : Nat) : Prop where
  timing : ∀ b t, (s.bankStates b).cmdTiming t ≤ h
  fourAw : ∀ rank, ∀ x ∈ s.fourAw rank, x ≤ h
  thirtyTwoAw : ∀ rank, ∀ x ∈ s.thirtyTwoAw rank, x ≤ h

theorem windowPush_le {window : List Nat} {delay : Int} {n x : Nat} (hwindow : ∀ y ∈ window, y ≤ h)
    (hd : 0 ≤ delay) (hn : delay ≤ n) (hx : x ∈ ChannelState.windowPush window clk delay) :
    x ≤ max h (clk + n) := by
  unfold ChannelState.windowPush at hx
  rcases List.mem_append.mp hx with hx | hx
  · have hmem : x ∈ window := by
      revert hx
      cases window with
      | nil => exact id
      | cons front rest =>
        dsimp only
        split
        · exact List.mem_cons_of_mem _
        · exact id
    exact (hwindow x hmem).trans (Nat.le_max_left ..)
  · rw [List.mem_singleton.mp hx]
    exact (addDelay_le hd hn).trans (Nat.le_max_right ..)

/-- A command delays others for the cycles of its pace. -/
theorem Settled.applied {s : ChannelState c} {p : Pace} (hp : c.Paced p) (hs : Settled s h)
    (hr : c.uses r.cmdType = true) : Settled (s.applied r clk) (max h (clk + p.of r.cmdType)) := by
  have hkeep {x : Nat} (hx : x ≤ h) : x ≤ max h (clk + p.of r.cmdType) :=
    hx.trans (Nat.le_max_left ..)
  refine ⟨fun b t => ?_, fun rank x hx => ?_, fun rank x hx => ?_⟩
  · refine BankState.updateTimings_le_of (hp.delaysOn hr r.bank b) ?_
    split
    · rw [BankState.after_cmdTiming]
      exact hs.timing b t
    · exact hs.timing b t
  · have hx : x ∈ (s.windowsAfter r clk).fourAw rank := hx
    unfold ChannelState.windowsAfter at hx
    split at hx
    · rename_i hact
      by_cases hrank : rank = r.bank.rank
      · subst hrank
        simp only [ChannelState.updateActivationTimes, Function.update_self] at hx
        rw [hact]
        exact windowPush_le (hs.fourAw _) hp.fourActivations.1 hp.fourActivations.2 hx
      · simp only [ChannelState.updateActivationTimes, Function.update_of_ne hrank] at hx
        exact hkeep (hs.fourAw rank x hx)
    · exact hkeep (hs.fourAw rank x hx)
  · have hx : x ∈ (s.windowsAfter r clk).thirtyTwoAw rank := hx
    unfold ChannelState.windowsAfter at hx
    split at hx
    · rename_i hact
      unfold ChannelState.updateActivationTimes at hx
      dsimp only at hx
      split at hx
      · rename_i hgddr
        by_cases hrank : rank = r.bank.rank
        · subst hrank
          rw [Function.update_self] at hx
          rw [hact]
          exact windowPush_le (hs.thirtyTwoAw _) (hp.manyActivations hgddr).1
            (hp.manyActivations hgddr).2 hx
        · rw [Function.update_of_ne hrank] at hx
          exact hkeep (hs.thirtyTwoAw rank x hx)
      · exact hkeep (hs.thirtyTwoAw rank x hx)
    · exact hkeep (hs.thirtyTwoAw rank x hx)

theorem Settled.mono {s : ChannelState c} {h' : Nat} (hs : Settled s h) (hle : h ≤ h') :
    Settled s h' :=
  ⟨fun b t => (hs.timing b t).trans hle, fun rank x hx => (hs.fourAw rank x hx).trans hle,
    fun rank x hx => (hs.thirtyTwoAw rank x hx).trans hle⟩

/-! ## Ready commands -/

theorem BankState.requiredType_hit {x : BankState} (hrw : cmd.cmdType.isReadWrite = true)
    (hopen : x.state = .opened) (hrow : cmd.row = x.openRow) :
    x.requiredType cmd = .ok cmd.cmdType := by
  unfold requiredType
  rcases CommandType.isReadWrite_cases hrw with ht | ht | ht | ht <;> simp [ht, hopen, hrow]

/-- When the delays of a bank have passed, it has a command for everything that is queued. -/
theorem BankState.getReadyCommand_settled {x : BankState} (htiming : ∀ t, x.cmdTiming t ≤ clk)
    (hstate : x.state ≠ .sref) (hcmd : Queued cmd) :
    ∃ r, x.getReadyCommand cmd clk = .ok (some r) := by
  obtain ⟨t, ht⟩ := requiredType_returns hstate hcmd
  unfold getReadyCommand
  rw [ht]
  dsimp only
  rw [if_pos (htiming t)]
  exact ⟨_, rfl⟩

namespace ChannelState

variable {s : ChannelState c}

theorem windowReady_of_le {size : Nat} {window : List Nat} (hwindow : ∀ x ∈ window, x ≤ clk) :
    windowReady size window clk = true := by
  cases window with
  | nil => rfl
  | cons front rest =>
    have hfront := hwindow front List.mem_cons_self
    simp [windowReady]
    omega

theorem activationWindowOk_of_settled (hs : Settled s clk) (rank : Fin c.ranks) :
    s.activationWindowOk rank clk = true := by
  have hfour : s.isFAWReady rank clk = true := windowReady_of_le (hs.fourAw rank)
  have hmany : s.is32AWReady rank clk = true := windowReady_of_le (hs.thirtyTwoAw rank)
  unfold activationWindowOk
  rw [hfour, hmany]
  split <;> rfl

theorem readyInRank_settled {bs : List (BankId c)} {numReady : Nat} {last : Option (Command c)}
    (hready : ∀ b ∈ bs, ∃ r, (s.bankStates b).getReadyCommand cmd clk = .ok (some r))
    (hcount : numReady + bs.length = c.banks) (hlast : bs = [] → ∃ r, last = some r) :
    ∃ r, s.readyInRank cmd clk bs numReady last = .ok (some r) := by
  induction bs generalizing numReady last with
  | nil =>
    obtain ⟨r, rfl⟩ := hlast rfl
    unfold readyInRank
    rw [if_pos (by simpa using hcount)]
    exact ⟨r, rfl⟩
  | cons b bs ih =>
    obtain ⟨r, hr⟩ := hready b List.mem_cons_self
    unfold readyInRank
    rw [hr]
    dsimp only
    split
    · exact ⟨_, rfl⟩
    · refine ih (fun b' hb' => hready b' (List.mem_cons_of_mem _ hb')) ?_ fun _ => ⟨r, rfl⟩
      simp only [List.length_cons] at hcount
      omega

/-- When all delays have passed, what is queued or a command that it needs first is ready. -/
theorem getReadyCommand_settled (hs : Settled s clk) (hawake : s.Awake) (hcmd : Queued cmd) :
    ∃ r, s.getReadyCommand cmd clk = .ok (some r) := by
  have hbank (b : BankId c) : ∃ r, (s.bankStates b).getReadyCommand cmd clk = .ok (some r) :=
    BankState.getReadyCommand_settled (hs.timing b) (hawake b) hcmd
  unfold getReadyCommand
  split
  · refine readyInRank_settled (fun b _ => hbank b) ?_ fun hnil => ?_
    · rw [length_banksOf, Nat.zero_add]
    · have hmem : cmd.bank ∈ banksOf c cmd.bank.rank := mem_banksOf.mpr rfl
      rw [hnil] at hmem
      cases hmem
  · obtain ⟨r, hr⟩ := hbank cmd.bank
    rw [hr]
    dsimp only
    rw [if_neg]
    · exact ⟨r, rfl⟩
    · rw [activationWindowOk_of_settled hs]
      simp

end ChannelState

/-! ## The queues -/

namespace Config

theorem bankInRank_lt (b : BankId c) :
    b.bankgroup.val * c.banksPerGroup + b.bank.val < c.banks := by
  have hgroup := b.bankgroup.isLt
  have hbank := b.bank.isLt
  calc b.bankgroup.val * c.banksPerGroup + b.bank.val
      < b.bankgroup.val * c.banksPerGroup + c.banksPerGroup := by omega
    _ = (b.bankgroup.val + 1) * c.banksPerGroup := by rw [Nat.add_mul, Nat.one_mul]
    _ ≤ c.bankgroups * c.banksPerGroup := Nat.mul_le_mul_right _ hgroup

/-- With a queue for each bank, the queues of a rank follow each other. -/
theorem getQueueIndex_div (hbank : c.queueStructure = .perBank) (b : BankId c) :
    getQueueIndex b / c.banks = b.rank.val := by
  have hlt := bankInRank_lt b
  unfold getQueueIndex
  rw [hbank]
  dsimp only
  rw [Nat.add_assoc, Nat.mul_comm, Nat.mul_add_div (by omega), Nat.div_eq_of_lt hlt, Nat.add_zero]

/-- A queue is for one rank. -/
theorem rank_eq_of_getQueueIndex {b b' : BankId c} (h : getQueueIndex b = getQueueIndex b') :
    b.rank = b'.rank := by
  cases hq : c.queueStructure with
  | perBank => exact Fin.ext (by rw [← getQueueIndex_div hq, ← getQueueIndex_div hq, h])
  | perRank =>
    unfold getQueueIndex at h
    rw [hq] at h
    exact Fin.ext h

theorem getQueueIndex_lt (b : BankId c) : getQueueIndex b < c.numQueues := by
  have hrank := b.rank.isLt
  have hlt := bankInRank_lt b
  unfold getQueueIndex numQueues
  cases c.queueStructure with
  | perRank => exact hrank
  | perBank =>
    dsimp only
    calc b.rank.val * c.banks + b.bankgroup.val * c.banksPerGroup + b.bank.val
        < b.rank.val * c.banks + c.banks := by omega
      _ = (b.rank.val + 1) * c.banks := by rw [Nat.add_mul, Nat.one_mul]
      _ ≤ c.ranks * c.banks := Nat.mul_le_mul_right _ hrank
      _ = c.banks * c.ranks := Nat.mul_comm ..

end Config

namespace CommandQueue

open Controller

variable {s : ChannelState c} {q q' : CommandQueue c}

/-- A command that was passed is not ready or may not be issued. -/
theorem firstReadyFrom_none {before queue mid after : List (Command c)}
    (h : firstReadyFrom s clk before queue = .ok none) (hqueue : queue = mid ++ cmd :: after)
    (hready : s.getReadyCommand cmd clk = .ok (some r)) :
    mayIssue s (before ++ mid) cmd after r = false := by
  induction mid generalizing before queue with
  | nil =>
    subst hqueue
    rw [List.nil_append] at h
    unfold firstReadyFrom at h
    rw [hready] at h
    dsimp only at h
    split at h
    · cases h
    · rename_i hmay
      simpa using hmay
  | cons x mid ih =>
    subst hqueue
    rw [List.cons_append] at h
    have hrest (h : firstReadyFrom s clk (before ++ [x]) (mid ++ cmd :: after) = .ok none) :
        mayIssue s (before ++ x :: mid) cmd after r = false := by
      have hpassed := ih h rfl
      rwa [List.append_assoc] at hpassed
    unfold firstReadyFrom at h
    split at h
    · cases h
    · exact hrest h
    · split at h
      · cases h
      · exact hrest h

/-- The command of an open row is ready when the delays of its bank have passed. -/
theorem getReadyCommand_hit (hs : Settled s clk) (hrw : cmd.cmdType.isReadWrite = true)
    (hopen : (s.bankStates cmd.bank).state = .opened)
    (hrow : cmd.row = (s.bankStates cmd.bank).openRow) :
    s.getReadyCommand cmd clk = .ok (some cmd) := by
  have hreq := BankState.requiredType_hit hrw hopen hrow
  have hact : cmd.cmdType ≠ .activate := by
    intro ht
    rw [ht] at hrw
    cases hrw
  unfold ChannelState.getReadyCommand BankState.getReadyCommand
  rw [CommandType.isRankCMD_of_isReadWrite hrw, if_neg Bool.false_ne_true, hreq]
  dsimp only
  rw [if_pos (hs.timing _ _)]
  dsimp only
  rw [if_neg fun h => hact h.1]

/-- A queue that is not empty has a command to issue when all delays have passed. -/
theorem firstReadyFrom_settled {i : Nat} {queue : List (Command c)} (hs : Settled s clk)
    (hawake : s.Awake) (hplaced : ∀ x ∈ queue, Placed i x) (hne : queue ≠ []) :
    ∃ r, firstReadyFrom s clk [] queue = .ok (some r) := by
  obtain ⟨answer, hanswer⟩ :=
    firstReadyFrom_returns hawake clk (fun x hx => Or.inl (hplaced x hx).isReadWrite) []
  cases answer with
  | some r => exact ⟨r, hanswer⟩
  | none =>
    exfalso
    obtain ⟨x, rest, hqueue⟩ := List.exists_cons_of_ne_nil hne
    have hrw : x.cmdType.isReadWrite = true := (hplaced x (by simp [hqueue])).isReadWrite
    obtain ⟨r, hr⟩ := ChannelState.getReadyCommand_settled hs hawake (Or.inl hrw)
    have hfront : queue = [] ++ x :: rest := hqueue
    have hrefused := firstReadyFrom_none hanswer hfront hr
    obtain ⟨hready, -, -, hsame, hself, hkind⟩ := ChannelState.getReadyCommand_ready hr
    have hbank : r.bank = x.bank := by rw [hsame (CommandType.isRankCMD_of_isReadWrite hrw)]
    unfold mayIssue at hrefused
    split at hrefused
    · -- the row is left to later commands of the queue: the first of them can be issued
      rename_i hpre
      have hopen : (s.bankStates x.bank).state = .opened := by
        have hallows := hready.allows r.bank r.concerns_bank
        rw [hbank] at hallows
        simpa [BankState.Allows, hpre] using hallows
      let hit : Command c → Bool := fun y =>
        y.row = (s.bankStates x.bank).openRow && y.bank = x.bank
      have hhit : (x :: rest).any hit = true := by
        by_contra hnone
        have hnone : (x :: rest).any hit = false := by simpa using hnone
        unfold arbitratePrecharge at hrefused
        have harbitrate : (x :: rest).any (fun next =>
            next.row = (s.bankStates x.bank).openRow && next.bank = x.bank) = false := hnone
        simp only [List.append_nil, List.any_nil, Bool.false_eq_true, if_false] at hrefused
        rw [harbitrate] at hrefused
        simp at hrefused
      rw [← hqueue] at hhit
      obtain ⟨y, hfind⟩ : ∃ y, queue.find? hit = some y := by
        obtain ⟨y, hy, hyhit⟩ := List.any_eq_true.mp hhit
        cases hfind : queue.find? hit with
        | none => simp [List.find?_eq_none.mp hfind y hy] at hyhit
        | some z => exact ⟨z, rfl⟩
      obtain ⟨hyhit, mid, after, hsplit, hfirst⟩ := List.find?_eq_some_iff_append.mp hfind
      obtain ⟨hrow, hybank⟩ : y.row = (s.bankStates x.bank).openRow ∧ y.bank = x.bank := by
        simpa [hit] using hyhit
      have hyplaced := hplaced y (by simp [hsplit])
      have hyready := getReadyCommand_hit hs hyplaced.isReadWrite (by rw [hybank]; exact hopen)
        (by rw [hybank]; exact hrow)
      have hyrefused := firstReadyFrom_none hanswer hsplit hyready
      unfold mayIssue at hyrefused
      split at hyrefused
      · rename_i hypre
        have hyrw := hyplaced.isReadWrite
        rw [hypre] at hyrw
        cases hyrw
      · split at hyrefused
        · -- it waits for a read of the same row, which comes before it
          have hdependency : hasRWDependency mid y = true := by simpa using hyrefused
          unfold hasRWDependency at hdependency
          obtain ⟨z, hz, hzkind⟩ := List.any_eq_true.mp hdependency
          simp only [Bool.and_eq_true, decide_eq_true_eq] at hzkind
          obtain ⟨⟨⟨⟨-, hzrow⟩, -⟩, hzbank⟩, hzgroup⟩ := hzkind
          have hzplaced := hplaced z (by rw [hsplit]; exact List.mem_append_left _ hz)
          have hzrank : z.bank.rank = y.bank.rank :=
            Config.rank_eq_of_getQueueIndex (hzplaced.index.trans hyplaced.index.symm)
          have hzy : z.bank = y.bank := by
            cases hb : z.bank
            cases hb' : y.bank
            simp_all
          have hzhit : hit z = true := by
            simp [hit, hzrow, hrow, hzy, hybank]
          simpa [hzhit] using hfirst z hz
        · cases hyrefused
    · split at hrefused
      · simp [hasRWDependency] at hrefused
      · cases hrefused

theorem getNextQueue_queueIdx (hidx : q.queueIdx < c.numQueues) :
    q.getNextQueue.queueIdx = (q.queueIdx + 1) % c.numQueues := by
  unfold getNextQueue
  dsimp only
  split
  · rename_i hlast
    rw [hlast, Nat.mod_self]
  · rw [Nat.mod_eq_of_lt (by omega)]

/-- The queues of the turns in which `GetCommandToIssue` found nothing are empty. -/
theorem issueFrom_none (hclk : q.clk = clk) (hs : Settled s clk) (hawake : s.Awake)
    (hq : ∀ i, ∀ x ∈ q.queues i, Placed i x) (hidx : q.queueIdx < c.numQueues)
    (hfree : q.isInRef = false) {fuel : Nat} (h : issueFrom s fuel q = .ok (none, q')) {k : Nat}
    (hk : k < fuel) : q.queues ((q.queueIdx + 1 + k) % c.numQueues) = [] := by
  induction fuel generalizing q k with
  | zero => omega
  | succ fuel ih =>
    have hnext := getNextQueue_queueIdx hidx
    have hlt : q.getNextQueue.queueIdx < c.numQueues := by
      rw [hnext]
      exact Nat.mod_lt _ (by omega)
    unfold issueFrom at h
    dsimp only at h
    rw [if_neg (by simp [getNextQueue, hfree])] at h
    -- a queue with a command would have stopped the loop
    have hempty : q.queues q.getNextQueue.queueIdx = [] := by
      by_contra hne
      obtain ⟨r, hr⟩ := firstReadyFrom_settled hs hawake (hq q.getNextQueue.queueIdx) hne
      have hfirst : q.getNextQueue.getFirstReadyInQueue s
          (q.getNextQueue.queues q.getNextQueue.queueIdx) = .ok (some r) := by
        rw [← hclk] at hr
        exact hr
      rw [hfirst] at h
      dsimp only at h
      split at h
      · split at h
        · cases h
        · cases h
      · cases h
    cases k with
    | zero =>
      rw [Nat.add_zero, ← hnext]
      exact hempty
    | succ k =>
      have hturn : q.getNextQueue.getFirstReadyInQueue s
          (q.getNextQueue.queues q.getNextQueue.queueIdx) = .ok none := by
        have hqueue : q.getNextQueue.queues q.getNextQueue.queueIdx = [] := hempty
        rw [hqueue]
        rfl
      rw [hturn] at h
      have hrest := ih (q := q.getNextQueue) (k := k) hclk hq hlt hfree h (by omega)
      rw [hnext] at hrest
      have hindex : ((q.queueIdx + 1) % c.numQueues + 1 + k) % c.numQueues =
          (q.queueIdx + 1 + (k + 1)) % c.numQueues := by
        rw [Nat.add_assoc, Nat.mod_add_mod]
        congr 1
        omega
      rw [hindex] at hrest
      exact hrest

/-- Every queue gets a turn. -/
theorem turn_of_lt {i n idx : Nat} (hi : i < n) (hidx : idx < n) :
    ∃ k < n, (idx + 1 + k) % n = i := by
  by_cases hle : idx + 1 ≤ i
  · refine ⟨i - (idx + 1), by omega, ?_⟩
    rw [Nat.add_sub_cancel' hle, Nat.mod_eq_of_lt hi]
  · refine ⟨n - (idx + 1) + i, by omega, ?_⟩
    have hsum : idx + 1 + (n - (idx + 1) + i) = n + i := by omega
    rw [hsum, Nat.add_mod_left, Nat.mod_eq_of_lt hi]

end CommandQueue

/-! ## The controller -/

namespace Controller

variable {s : Controller c}

/-- **A controller does not stall.** When all delays have passed and a refresh or a command waits, a
command is issued. -/
theorem firstCommand_settled (hsteady : Steady s) (hs : InStep s)
    (hsettled : Settled s.channelState s.clk) (hidx : s.cmdQueue.queueIdx < c.numQueues)
    (hmark : s.channelState.refreshQ = [] → s.cmdQueue.isInRef = false)
    (hwork : s.channelState.refreshQ ≠ [] ∨ ∃ i < c.numQueues, s.cmdQueue.queues i ≠ []) :
    ∃ r t, s.firstCommand = .ok (some r, t) := by
  obtain ⟨⟨answer, t⟩, hfirst⟩ := firstCommand_returns hsteady hs
  cases answer with
  | some r => exact ⟨r, t, hfirst⟩
  | none =>
    exfalso
    unfold firstCommand at hfirst
    split at hfirst
    · rename_i hempty
      unfold takeCommand CommandQueue.getCommandToIssue at hfirst
      split at hfirst
      · cases hfirst
      · rename_i q' hissue
        cases hfirst
        rcases hwork with hrefresh | ⟨i, hi, hne⟩
        · exact hrefresh hempty
        · obtain ⟨k, hk, hindex⟩ := CommandQueue.turn_of_lt hi hidx
          have hnone := CommandQueue.issueFrom_none hs.clk hsettled hsteady.awake
            hsteady.carried.placed hidx (hmark hempty) hissue hk
          rw [hindex] at hnone
          exact hne hnone
    · rename_i ref rest hfront
      have href := hs.refreshes ref (by rw [hfront]; exact List.mem_cons_self)
      obtain ⟨r, hr⟩ :=
        ChannelState.getReadyCommand_settled hsettled hsteady.awake (Or.inr href)
      split at hfirst
      · cases hfirst
      · cases hfirst
      · rename_i hfinish
        obtain ⟨-, hready⟩ := finishRefresh_ok hfinish
        rw [hs.clk, hr] at hready
        cases hready

end Controller

end NetSim.Memory
