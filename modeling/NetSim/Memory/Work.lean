import NetSim.Library.Sums
import NetSim.Memory.RefreshOrder
import NetSim.Memory.Stall

/-!
# The work that is left

For how many cycles can a controller be busy with what it has accepted? Every command is paid for:
a waiting transaction or command pays for its burst and for opening its row, a bank with a command
for it pays for what is missing to the row of the first of them, and a refresh pays for closing its
banks and for opening their rows again (`Controller.work`). A command that is issued takes at least
the cycles that it delays others, and one more, from the work that is left; a new refresh adds to
it, and nothing else does.
-/

namespace NetSim.Memory

open Common Library

variable {c : Config} {p : Pace} {cmd r : Command c} {clk : Nat}

/-! ## Prices -/

namespace Pace

/-- Closing the row of a bank and opening another one. -/
def row (p : Pace) : Nat := p.precharge + 1 + (p.activate + 1)

/-- A command in a queue: its burst, and the next row of its bank. -/
def command (p : Pace) : Nat := p.burst + 1 + p.row

/-- A transaction that waits: its command, and the first row of its bank. -/
def transaction (p : Pace) : Nat := p.command + p.row + 1

/-- A refresh: closing its banks, itself, and opening rows again. -/
def refreshing (p : Pace) (c : Config) : Nat := p.refresh + 1 + c.banks * p.row

end Pace

instance : Fintype (BankId c) :=
  .ofEquiv (Fin c.ranks × Fin c.bankgroups × Fin c.banksPerGroup)
    ⟨fun x => ⟨x.1, x.2.1, x.2.2⟩, fun b => (b.rank, b.bankgroup, b.bank), fun _ => rfl,
      fun _ => rfl⟩

theorem card_rank (rank : Fin c.ranks) :
    (Finset.univ.filter fun b : BankId c => b.rank = rank).card = c.banks := by
  have hbanks : (Finset.univ.filter fun b : BankId c => b.rank = rank) =
      (banksOf c rank).toFinset := by
    ext b
    simp [mem_banksOf]
  rw [hbanks, List.toFinset_card_of_nodup (nodup_banksOf rank), length_banksOf]

namespace Controller

variable {s t u : Controller c}

/-! ## What is to be paid -/

/-- The first command for a bank. -/
def nextOn (s : Controller c) (b : BankId c) : Option (Command c) :=
  (s.cmdQueue.queues (Config.getQueueIndex b)).find? fun x => x.bank = b

/-- What is missing to the row of the first command for a bank. -/
def rowWork (p : Pace) (s : Controller c) (b : BankId c) : Nat :=
  match s.nextOn b with
  | none => 0
  | some x =>
    if (s.channelState.bankStates b).state = .opened then
      if x.row = (s.channelState.bankStates b).openRow then 0 else p.row
    else p.activate + 1

/-- The refresh for which the queues are blocked. -/
def blocking (s : Controller c) : Option (Command c) :=
  if s.cmdQueue.isInRef then s.channelState.refreshQ.head? else none

/-- What the refresh has to do to a bank, and what has to be done again after it. -/
def closeWork (p : Pace) (s : Controller c) (b : BankId c) : Nat :=
  match s.blocking with
  | none => 0
  | some ref =>
    if ref.Touches b ∧ (s.channelState.bankStates b).state = .opened then p.row else 0

/-- The work at a bank. -/
def bankWork (p : Pace) (s : Controller c) (b : BankId c) : Nat := s.rowWork p b + s.closeWork p b

/-- The requests for which no queue is blocked. -/
def unblocked (s : Controller c) : Nat :=
  s.channelState.refreshQ.length - if s.cmdQueue.isInRef then 1 else 0

/-- The number of waiting transactions. -/
def waiting (s : Controller c) : Nat := s.waitingCount fun _ => true

/-- The work that is left. -/
def work (p : Pace) (s : Controller c) : Nat :=
  p.transaction * s.waiting + p.command * s.cmdQueue.queueUsage + ∑ b, s.bankWork p b +
    (p.refresh + 1) * s.channelState.refreshQ.length + c.banks * p.row * s.unblocked

theorem rowWork_le (p : Pace) (s : Controller c) (b : BankId c) : s.rowWork p b ≤ p.row := by
  unfold rowWork
  split
  · omega
  · split
    · split <;> omega
    · unfold Pace.row
      omega

/-! ## A change at one bank -/

/-- All banks but one, the requests for refreshes and the blocked queues are as before. -/
structure AtBank (b : BankId c) (s t : Controller c) : Prop where
  refreshQ : t.channelState.refreshQ = s.channelState.refreshQ
  isInRef : t.cmdQueue.isInRef = s.cmdQueue.isInRef
  next : ∀ b', b' ≠ b → t.nextOn b' = s.nextOn b'
  state : ∀ b', b' ≠ b →
    (t.channelState.bankStates b').state = (s.channelState.bankStates b').state
  openRow : ∀ b', b' ≠ b →
    (t.channelState.bankStates b').openRow = (s.channelState.bankStates b').openRow

theorem AtBank.trans {b : BankId c} (h : AtBank b s t) (h' : AtBank b t u) : AtBank b s u where
  refreshQ := h'.refreshQ.trans h.refreshQ
  isInRef := h'.isInRef.trans h.isInRef
  next b' hb := (h'.next b' hb).trans (h.next b' hb)
  state b' hb := (h'.state b' hb).trans (h.state b' hb)
  openRow b' hb := (h'.openRow b' hb).trans (h.openRow b' hb)

theorem AtBank.blocking {b : BankId c} (h : AtBank b s t) : t.blocking = s.blocking := by
  unfold Controller.blocking
  rw [h.refreshQ, h.isInRef]

theorem AtBank.bankWork {b : BankId c} (h : AtBank b s t) {b' : BankId c} (hb : b' ≠ b) :
    t.bankWork p b' = s.bankWork p b' := by
  unfold Controller.bankWork rowWork closeWork
  rw [h.next b' hb, h.state b' hb, h.openRow b' hb, h.blocking]

/-- The work changes by what changes for the transactions, for the commands and for the one bank. -/
theorem AtBank.work_le {b : BankId c} (h : AtBank b s t) {k : Nat}
    (hpay : p.transaction * t.waiting + p.command * t.cmdQueue.queueUsage + t.bankWork p b + k ≤
      p.transaction * s.waiting + p.command * s.cmdQueue.queueUsage + s.bankWork p b) :
    t.work p + k ≤ s.work p := by
  have hunblocked : t.unblocked = s.unblocked := by
    unfold unblocked
    rw [h.refreshQ, h.isInRef]
  have hsum := sum_le_sum_of_one (Finset.mem_univ b) (f := t.bankWork p) (g := s.bankWork p)
    (k := p.transaction * t.waiting + p.command * t.cmdQueue.queueUsage + k)
    (m := p.transaction * s.waiting + p.command * s.cmdQueue.queueUsage)
    (fun b' hb => (h.bankWork hb).le) (by omega)
  unfold work
  rw [h.refreshQ, hunblocked]
  omega

/-! ## Commands that leave their queue -/

theorem queueUsage_eq (q : CommandQueue c) :
    q.queueUsage = ∑ i ∈ Finset.range c.numQueues, (q.queues i).length := rfl

/-- The commands of other banks do not matter. -/
theorem find?_erase_of_not {α : Type} [DecidableEq α] {f : α → Bool} {x : α} (hx : f x = false)
    (l : List α) : (l.erase x).find? f = l.find? f := by
  induction l with
  | nil => rfl
  | cons y l ih =>
    by_cases hy : y = x
    · subst hy
      rw [List.erase_cons_head, List.find?_cons_of_neg (by simp [hx])]
    · rw [List.erase_cons_tail (by simpa using hy), List.find?_cons, List.find?_cons, ih]

theorem nextOn_leaves {i : Nat} (hs : AllPlaced s) (hr : r ∈ s.cmdQueue.queues i) {b : BankId c}
    (hb : b ≠ r.bank) : (s.leaves r).nextOn b = s.nextOn b := by
  unfold nextOn
  rw [leaves_queues hs hr]
  by_cases hi : Config.getQueueIndex b = i
  · rw [hi, Function.update_self, find?_erase_of_not]
    simpa using hb.symm
  · rw [Function.update_of_ne hi]

theorem queueUsage_leaves {i : Nat} (hs : AllPlaced s) (hr : r ∈ s.cmdQueue.queues i) :
    (s.leaves r).cmdQueue.queueUsage + 1 = s.cmdQueue.queueUsage := by
  have hi : i ∈ Finset.range c.numQueues := by
    rw [Finset.mem_range, ← (hs i r hr).index]
    exact Config.getQueueIndex_lt r.bank
  have hsum := sum_comp_update List.length s.cmdQueue.queues hi ((s.cmdQueue.queues i).erase r)
  rw [← leaves_queues hs hr, List.length_erase_of_mem hr] at hsum
  have hpos := List.length_pos_of_mem hr
  rw [queueUsage_eq, queueUsage_eq]
  omega

theorem atBank_leaves {i : Nat} (hs : AllPlaced s) (hr : r ∈ s.cmdQueue.queues i) :
    AtBank r.bank s (s.leaves r) := by
  have hnext := fun b hb => nextOn_leaves (b := b) hs hr hb
  obtain ⟨q, hq⟩ := s.leaves_eq r
  rw [hq] at hnext ⊢
  exact ⟨rfl, rfl, hnext, fun _ _ => rfl, fun _ _ => rfl⟩

theorem waiting_leaves (s : Controller c) (r : Command c) : (s.leaves r).waiting = s.waiting := by
  obtain ⟨q, hq⟩ := s.leaves_eq r
  rw [hq]
  rfl

/-- A command that leaves its queue pays for its burst and for the next row of its bank. -/
theorem AtBank.burst {b : BankId c} (h : AtBank b s t) (hwaiting : t.waiting = s.waiting)
    (husage : t.cmdQueue.queueUsage + 1 = s.cmdQueue.queueUsage)
    (hclose : t.closeWork p b ≤ s.closeWork p b) : t.work p + (p.burst + 1) ≤ s.work p := by
  refine h.work_le ?_
  have hrow := rowWork_le p t b
  rw [hwaiting, ← husage, Nat.mul_add, Nat.mul_one]
  unfold Controller.bankWork Pace.command
  omega

theorem work_leaves {i : Nat} (hs : AllPlaced s) (hr : r ∈ s.cmdQueue.queues i) :
    (s.leaves r).work p + (p.burst + 1) ≤ s.work p := by
  refine (atBank_leaves hs hr).burst (waiting_leaves s r) (queueUsage_leaves hs hr) ?_
  obtain ⟨q, hq⟩ := s.leaves_eq r
  rw [hq]
  exact le_rfl

/-! ## Commands that are issued -/

theorem applied_state (x : ChannelState c) (b : BankId c) :
    ((x.applied r clk).bankStates b).state =
      if r.Touches b then ((x.bankStates b).after r).state else (x.bankStates b).state := by
  unfold ChannelState.applied
  dsimp only
  rw [BankState.updateTimings_state]
  split <;> rfl

theorem applied_openRow (x : ChannelState c) (b : BankId c) :
    ((x.applied r clk).bankStates b).openRow =
      if r.Touches b then ((x.bankStates b).after r).openRow else (x.bankStates b).openRow := by
  unfold ChannelState.applied
  dsimp only
  rw [BankState.updateTimings_openRow]
  split <;> rfl

theorem refreshQAfter_of_not_refresh {x : ChannelState c} (hr : r.cmdType.isRefresh = false) :
    x.refreshQAfter r = x.refreshQ := by
  unfold ChannelState.refreshQAfter
  cases htype : r.cmdType <;> rw [htype] at hr <;> first | rfl | cases hr

/-- A command to a bank that is no refresh. -/
theorem atBank_issued (hrank : r.cmdType.isRankCMD = false)
    (hrefresh : r.cmdType.isRefresh = false) :
    AtBank r.bank s (s.issued r) := by
  have hother {b : BankId c} (hb : b ≠ r.bank) : ¬ r.Touches b := by
    rwa [ChannelState.touches_iff_of_bank hrank]
  refine ⟨refreshQAfter_of_not_refresh hrefresh, rfl, fun _ _ => rfl, fun b hb => ?_,
    fun b hb => ?_⟩
  · show ((s.channelState.applied r s.clk).bankStates b).state = _
    rw [applied_state, if_neg (hother hb)]
  · show ((s.channelState.applied r s.clk).bankStates b).openRow = _
    rw [applied_openRow, if_neg (hother hb)]

/-- No refresh has blocked the queues for the bank. -/
def Untouched (s : Controller c) (b : BankId c) : Prop := ∀ ref ∈ s.blocking, ¬ ref.Touches b

theorem Untouched.closeWork {b : BankId c} (h : s.Untouched b) : s.closeWork p b = 0 := by
  unfold Controller.closeWork
  split
  · rfl
  · rename_i ref href
    exact if_neg fun htouches => h ref href htouches.1

theorem AtBank.untouched {b : BankId c} (h : AtBank b s t) {b' : BankId c} (hb : s.Untouched b') :
    t.Untouched b' := by
  unfold Untouched
  rw [h.blocking]
  exact hb

/-- A read or a write. -/
theorem work_readWrite {i : Nat} (hs : AllPlaced s) (hr : r ∈ s.cmdQueue.queues i)
    (hfree : s.Untouched r.bank) : ((s.leaves r).issued r).work p + (p.burst + 1) ≤ s.work p := by
  have hrw := (hs i r hr).isReadWrite
  have hrefresh : r.cmdType.isRefresh = false := by
    cases href : r.cmdType.isRefresh with
    | false => rfl
    | true => simp [CommandType.isReadWrite_of_isRefresh href] at hrw
  have hbank : AtBank r.bank s ((s.leaves r).issued r) :=
    (atBank_leaves hs hr).trans
      (atBank_issued (CommandType.isRankCMD_of_isReadWrite hrw) hrefresh)
  refine hbank.burst (waiting_leaves s r) (queueUsage_leaves hs hr) ?_
  rw [(hbank.untouched hfree).closeWork]
  exact Nat.zero_le _

/-- Another command to a bank. -/
theorem AtBank.issued {k : Nat} (h : AtBank r.bank s (s.issued r))
    (hpay : (s.issued r).bankWork p r.bank + k ≤ s.bankWork p r.bank) :
    (s.issued r).work p + k ≤ s.work p := by
  refine h.work_le ?_
  have hwaiting : (s.issued r).waiting = s.waiting := rfl
  have husage : (s.issued r).cmdQueue.queueUsage = s.cmdQueue.queueUsage := rfl
  rw [hwaiting, husage]
  omega

/-- The work at a bank that is not open. -/
theorem bankWork_le_of_closed {b : BankId c}
    (hstate : (s.channelState.bankStates b).state ≠ .opened) :
    s.bankWork p b ≤ p.activate + 1 := by
  have hclose : s.closeWork p b = 0 := by
    unfold closeWork
    split
    · rfl
    · exact if_neg fun h => hstate h.2
  have hrow : s.rowWork p b ≤ p.activate + 1 := by
    unfold rowWork
    split
    · exact Nat.zero_le _
    · rw [if_neg hstate]
  unfold bankWork
  omega

theorem issued_state (hr : r.Touches r.bank) :
    ((s.issued r).channelState.bankStates r.bank).state =
      ((s.channelState.bankStates r.bank).after r).state := by
  show ((s.channelState.applied r s.clk).bankStates r.bank).state = _
  rw [applied_state, if_pos hr]

/-- A precharge of a bank at which a row is to be closed. -/
theorem work_precharge (hpre : r.cmdType = .precharge) (hpay : p.row ≤ s.bankWork p r.bank) :
    (s.issued r).work p + (p.precharge + 1) ≤ s.work p := by
  have hrank : r.cmdType.isRankCMD = false := by rw [hpre]; rfl
  refine (atBank_issued hrank (by rw [hpre]; rfl)).issued ?_
  have hclosed : (s.issued r).bankWork p r.bank ≤ p.activate + 1 := by
    apply bankWork_le_of_closed
    rw [issued_state ((ChannelState.touches_iff_of_bank hrank).mpr rfl)]
    simp [BankState.after, hpre]
  unfold Pace.row at hpay
  omega

/-- The activation of the row of the first command for a bank. -/
theorem work_activate {x : Command c} (hact : r.cmdType = .activate)
    (hnext : s.nextOn r.bank = some x) (hrow : r.row = x.row)
    (hstate : (s.channelState.bankStates r.bank).state ≠ .opened) (hfree : s.Untouched r.bank) :
    (s.issued r).work p + (p.activate + 1) ≤ s.work p := by
  have hrank : r.cmdType.isRankCMD = false := by rw [hact]; rfl
  have htouches : r.Touches r.bank := (ChannelState.touches_iff_of_bank hrank).mpr rfl
  have hbank : AtBank r.bank s (s.issued r) := atBank_issued hrank (by rw [hact]; rfl)
  refine hbank.issued ?_
  have hopen : ((s.issued r).channelState.bankStates r.bank).state = .opened := by
    rw [issued_state htouches]
    simp [BankState.after, hact]
  have hopenRow : ((s.issued r).channelState.bankStates r.bank).openRow = x.row := by
    show ((s.channelState.applied r s.clk).bankStates r.bank).openRow = _
    rw [applied_openRow, if_pos htouches]
    simp [BankState.after, hact, hrow]
  have hafter : (s.issued r).rowWork p r.bank = 0 := by
    have hnext : (s.issued r).nextOn r.bank = some x := hnext
    unfold rowWork
    rw [hnext]
    dsimp only
    rw [if_pos hopen, if_pos hopenRow.symm]
  have hbefore : s.rowWork p r.bank = p.activate + 1 := by
    unfold rowWork
    rw [hnext]
    dsimp only
    rw [if_neg hstate]
  unfold bankWork
  rw [hafter, hbefore, hfree.closeWork, (hbank.untouched hfree).closeWork]
  omega

/-! ## Refreshes -/

/-- The blocked queues are those of the first refresh that waits. -/
def Blocks (s : Controller c) : Prop :=
  s.cmdQueue.isInRef = true → ∃ ref rest, s.channelState.refreshQ = ref :: rest ∧
    ∀ b, ref.Touches b → Config.getQueueIndex b ∈ s.cmdQueue.refQIndices

theorem blocks_of_free (h : s.cmdQueue.isInRef = false) : Blocks s := by
  intro hin
  rw [h] at hin
  cases hin

theorem Blocks.untouched {b : BankId c} (h : Blocks s)
    (hfree : ¬ (s.cmdQueue.isInRef = true ∧ Config.getQueueIndex b ∈ s.cmdQueue.refQIndices)) :
    s.Untouched b := by
  intro ref href htouches
  unfold blocking at href
  split at href
  · rename_i hin
    obtain ⟨ref', rest, hfront, hindices⟩ := h hin
    rw [hfront] at href
    obtain rfl : ref' = ref := Option.some.inj href
    exact hfree ⟨hin, hindices b htouches⟩
  · cases href

theorem card_touches (r : Command c) :
    (Finset.univ.filter fun b : BankId c => r.Touches b).card ≤ c.banks := by
  rw [← card_rank r.bank.rank]
  refine Finset.card_le_card fun b hb => ?_
  have htouches : r.Touches b := (Finset.mem_filter.mp hb).2
  refine Finset.mem_filter.mpr ⟨Finset.mem_univ b, ?_⟩
  unfold Command.Touches at htouches
  split at htouches
  · exact htouches
  · rw [htouches]

/-- The queues are blocked for a refresh. -/
def marked (s : Controller c) (ref : Command c) : Controller c :=
  { s with
    cmdQueue :=
      if s.cmdQueue.isInRef then s.cmdQueue
      else { s.cmdQueue.getRefQIndices ref with isInRef := true } }

theorem marked_isInRef (s : Controller c) (ref : Command c) :
    (s.marked ref).cmdQueue.isInRef = true := by
  unfold marked
  dsimp only
  split
  · assumption
  · rfl

theorem marked_queues (s : Controller c) (ref : Command c) :
    (s.marked ref).cmdQueue.queues = s.cmdQueue.queues := by
  unfold marked
  dsimp only
  split <;> rfl

theorem marked_blocking {ref : Command c} {rest : List (Command c)}
    (hfront : s.channelState.refreshQ = ref :: rest) : (s.marked ref).blocking = some ref := by
  unfold blocking
  rw [marked_isInRef, if_pos rfl]
  show s.channelState.refreshQ.head? = some ref
  rw [hfront]
  rfl

/-- What is to be done for a refresh has been paid for when it was requested. -/
theorem work_marked {ref : Command c} {rest : List (Command c)}
    (hfront : s.channelState.refreshQ = ref :: rest) : (s.marked ref).work p ≤ s.work p := by
  cases hin : s.cmdQueue.isInRef with
  | true =>
    have hsame : s.marked ref = s := by simp [marked, hin]
    rw [hsame]
  | false =>
    have husage : (s.marked ref).cmdQueue.queueUsage = s.cmdQueue.queueUsage := by
      rw [queueUsage_eq, queueUsage_eq, marked_queues]
    have hrow (b : BankId c) : (s.marked ref).rowWork p b = s.rowWork p b := by
      unfold rowWork nextOn
      rw [marked_queues]
      rfl
    have hclose (b : BankId c) :
        (s.marked ref).closeWork p b ≤ if ref.Touches b then p.row else 0 := by
      unfold closeWork
      rw [marked_blocking hfront]
      dsimp only
      split
      · rename_i hb
        rw [if_pos hb.1]
      · exact Nat.zero_le _
    have hbanks : ∑ b, (s.marked ref).bankWork p b ≤ ∑ b, s.bankWork p b + c.banks * p.row := by
      calc ∑ b, (s.marked ref).bankWork p b
          ≤ ∑ b, (s.bankWork p b + if ref.Touches b then p.row else 0) := by
            refine Finset.sum_le_sum fun b _ => ?_
            unfold bankWork
            have hb := hclose b
            rw [hrow]
            omega
        _ = ∑ b, s.bankWork p b +
              (Finset.univ.filter fun b : BankId c => ref.Touches b).card * p.row := by
            rw [Finset.sum_add_distrib, ← Finset.sum_filter, Finset.sum_const_nat fun _ _ => rfl]
        _ ≤ ∑ b, s.bankWork p b + c.banks * p.row :=
            Nat.add_le_add_left (Nat.mul_le_mul_right _ (card_touches ref)) _
    have hafter : (s.marked ref).unblocked = rest.length := by
      unfold unblocked
      rw [marked_isInRef, if_pos rfl]
      show s.channelState.refreshQ.length - 1 = _
      rw [hfront]
      rfl
    have hbefore : s.unblocked = rest.length + 1 := by
      unfold unblocked
      rw [hin, hfront]
      rfl
    have hwaiting : (s.marked ref).waiting = s.waiting := rfl
    have hrefreshQ : (s.marked ref).channelState.refreshQ = s.channelState.refreshQ := rfl
    unfold work
    rw [hafter, hbefore, hwaiting, husage, hrefreshQ, Nat.mul_add, Nat.mul_one]
    omega

/-- A refresh. -/
theorem work_refresh {rest : List (Command c)} (hr : r.cmdType.isRefresh = true)
    (hfront : s.channelState.refreshQ = r :: rest) (hin : s.cmdQueue.isInRef = true) (idx : Nat) :
    ((s.turned ∅ false idx).issued r).work p + (p.refresh + 1) ≤ s.work p := by
  have hafter {x : BankState} : x.after r = x := by
    unfold BankState.after
    cases htype : r.cmdType <;> rw [htype] at hr <;> first | rfl | cases hr
  have hrefreshQ : ((s.turned ∅ false idx).issued r).channelState.refreshQ = rest := by
    show s.channelState.refreshQAfter r = rest
    unfold ChannelState.refreshQAfter
    rw [hfront]
    cases htype : r.cmdType <;> rw [htype] at hr <;> cases hr <;> simp
  have hbank (b : BankId c) : ((s.turned ∅ false idx).issued r).bankWork p b ≤ s.bankWork p b := by
    have hstate : (((s.turned ∅ false idx).issued r).channelState.bankStates b).state =
        (s.channelState.bankStates b).state := by
      show ((s.channelState.applied r s.clk).bankStates b).state = _
      rw [applied_state, hafter, ite_self]
    have hopenRow : (((s.turned ∅ false idx).issued r).channelState.bankStates b).openRow =
        (s.channelState.bankStates b).openRow := by
      show ((s.channelState.applied r s.clk).bankStates b).openRow = _
      rw [applied_openRow, hafter, ite_self]
    have hnext : ((s.turned ∅ false idx).issued r).nextOn b = s.nextOn b := rfl
    have hrow : ((s.turned ∅ false idx).issued r).rowWork p b = s.rowWork p b := by
      unfold rowWork
      rw [hnext, hstate, hopenRow]
    have hclose : ((s.turned ∅ false idx).issued r).closeWork p b = 0 := rfl
    unfold bankWork
    rw [hrow, hclose]
    omega
  have hsum := Finset.sum_le_sum fun b (_ : b ∈ Finset.univ) => hbank b
  have hbefore : s.unblocked = rest.length := by
    unfold unblocked
    rw [hin, hfront]
    rfl
  have hunblocked : ((s.turned ∅ false idx).issued r).unblocked = rest.length := by
    unfold unblocked
    rw [hrefreshQ]
    rfl
  have hwaiting : ((s.turned ∅ false idx).issued r).waiting = s.waiting := rfl
  have husage : ((s.turned ∅ false idx).issued r).cmdQueue.queueUsage = s.cmdQueue.queueUsage :=
    rfl
  unfold work
  rw [hwaiting, husage, hrefreshQ, hunblocked, hbefore, hfront, List.length_cons, Nat.mul_add,
    Nat.mul_one]
  omega

/-- The requests of a cycle. -/
theorem work_due (hs : Blocks s) (refresh : Refresh c) (new : List (Command c)) :
    (s.due refresh new).work p = s.work p + p.refreshing c * new.length := by
  have hlength : (s.due refresh new).channelState.refreshQ.length =
      s.channelState.refreshQ.length + new.length := List.length_append
  have hblocking : (s.due refresh new).blocking = s.blocking := by
    unfold blocking
    cases hin : s.cmdQueue.isInRef with
    | false => simp [due, hin]
    | true =>
      obtain ⟨ref, rest, hfront, -⟩ := hs hin
      simp [due, hin, hfront]
  have hunblocked : (s.due refresh new).unblocked = s.unblocked + new.length := by
    unfold unblocked
    rw [hlength]
    show _ - (if s.cmdQueue.isInRef = true then 1 else 0) = _
    cases hin : s.cmdQueue.isInRef with
    | false => simp
    | true =>
      obtain ⟨ref, rest, hfront, -⟩ := hs hin
      have hpos : 0 < s.channelState.refreshQ.length := by simp [hfront]
      simp only [if_true]
      omega
  have hbank (b : BankId c) : (s.due refresh new).bankWork p b = s.bankWork p b := by
    unfold bankWork closeWork
    rw [hblocking]
    rfl
  have hwaiting : (s.due refresh new).waiting = s.waiting := rfl
  have husage : (s.due refresh new).cmdQueue.queueUsage = s.cmdQueue.queueUsage := rfl
  have hsum : ∑ b, (s.due refresh new).bankWork p b = ∑ b, s.bankWork p b :=
    Finset.sum_congr rfl fun b _ => hbank b
  have hprice : p.refreshing c * new.length =
      (p.refresh + 1) * new.length + c.banks * p.row * new.length := Nat.add_mul _ _ _
  unfold work
  rw [hwaiting, husage, hlength, hunblocked, hsum, hprice, Nat.mul_add, Nat.mul_add]
  omega

/-! ## Transactions that go to a command queue -/

/-- A transaction pays for its command, for the row of the bank, and one more. -/
theorem work_scheduled {src : Source} {before after : List Transaction} {x : Transaction}
    (hqueue : s.queue src = before ++ x :: after)
    (haccept : s.cmdQueue.willAcceptCommand (c.addressMapping x.addr).bank = true) :
    (s.scheduled src before x after).work p + 1 ≤ s.work p := by
  have hqueues : (s.scheduled src before x after).cmdQueue.queues =
      Function.update s.cmdQueue.queues (queueOf c x.addr)
        (s.cmdQueue.queues (queueOf c x.addr) ++ [transToCommand x.addr x.isWrite]) :=
    scheduled_queues haccept
  have hstate : (s.scheduled src before x after).channelState = s.channelState := by
    cases src <;> rfl
  have hin : (s.scheduled src before x after).cmdQueue.isInRef = s.cmdQueue.isInRef := by
    unfold scheduled
    rw [setQueue_cmdQueue]
    unfold CommandQueue.addCommand
    dsimp only
    split <;> rfl
  have hbank : AtBank (c.addressMapping x.addr).bank s (s.scheduled src before x after) := by
    refine ⟨by rw [hstate], hin, fun b hb => ?_, fun b _ => by rw [hstate],
      fun b _ => by rw [hstate]⟩
    unfold nextOn
    rw [hqueues]
    by_cases hi : Config.getQueueIndex b = queueOf c x.addr
    · rw [hi, Function.update_self, List.find?_append]
      simp [hb.symm]
    · rw [Function.update_of_ne hi]
  have husage : (s.scheduled src before x after).cmdQueue.queueUsage =
      s.cmdQueue.queueUsage + 1 := by
    have hmem : queueOf c x.addr ∈ Finset.range c.numQueues :=
      Finset.mem_range.mpr (Config.getQueueIndex_lt _)
    have hsum := sum_comp_update List.length s.cmdQueue.queues hmem
      (s.cmdQueue.queues (queueOf c x.addr) ++ [transToCommand x.addr x.isWrite])
    rw [← hqueues, List.length_append, List.length_singleton] at hsum
    rw [queueUsage_eq, queueUsage_eq]
    omega
  have hwaiting : (s.scheduled src before x after).waiting + 1 = s.waiting := by
    have hcount := waitingCount_setQueue
      { s with cmdQueue := (s.cmdQueue.addCommand (transToCommand x.addr x.isWrite)).2 }
      (before ++ after) src fun _ => true
    have hqueue' : queue { s with
        cmdQueue := (s.cmdQueue.addCommand (transToCommand x.addr x.isWrite)).2 } src =
        before ++ x :: after := by
      cases src <;> exact hqueue
    rw [hqueue'] at hcount
    simp only [List.countP_true, List.length_append, List.length_cons] at hcount
    have hsame : waitingCount { s with
        cmdQueue := (s.cmdQueue.addCommand (transToCommand x.addr x.isWrite)).2 } (fun _ => true) =
        s.waiting := rfl
    have hlater : (s.scheduled src before x after).waiting =
        waitingCount (setQueue { s with
          cmdQueue := (s.cmdQueue.addCommand (transToCommand x.addr x.isWrite)).2 }
          (before ++ after) src) (fun _ => true) := rfl
    omega
  refine hbank.work_le ?_
  have hrow := rowWork_le p (s.scheduled src before x after) (c.addressMapping x.addr).bank
  have hclose : (s.scheduled src before x after).closeWork p (c.addressMapping x.addr).bank =
      s.closeWork p (c.addressMapping x.addr).bank := by
    unfold closeWork
    rw [hbank.blocking, hstate]
  rw [husage, ← hwaiting, Nat.mul_add, Nat.mul_add, Nat.mul_one, Nat.mul_one]
  unfold bankWork Pace.transaction
  rw [hclose]
  omega

end Controller

end NetSim.Memory
