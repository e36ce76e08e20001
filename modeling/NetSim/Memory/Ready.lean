import NetSim.Memory.ChannelState
import NetSim.Library.Along

/-!
# Commands that are ready

What `GetReadyCommand` promises of the command that it returns (`Ready`): it is legal in the state
of every bank that it concerns, its time there has come, and an activation fits in the activation
windows. What `UpdateTimingAndStates` does when it returns is `ChannelState.applied`; for a command
that is ready, and is not the end of a self refresh, it does return.
-/

namespace NetSim.Memory

variable {c : Config} {cmd r : Command c} {clk : Nat}

/-! ## One bank -/

namespace BankState

variable {x : BankState}

/-- The states of a bank in which the device takes a command. -/
def Allows (x : BankState) (r : Command c) : Prop :=
  match r.cmdType with
  | .read | .readPrecharge | .write | .writePrecharge => x.state = .opened ∧ x.openRow = r.row
  | .precharge => x.state = .opened
  | .activate | .refresh | .refreshBank | .srefEnter => x.state = .closed
  | .srefExit => x.state = .sref

/-- The bank after a command that `UpdateState` takes. -/
def after (x : BankState) (r : Command c) : BankState :=
  match r.cmdType with
  | .read | .write => { x with rowHitCount := x.rowHitCount + 1 }
  | .readPrecharge | .writePrecharge | .precharge =>
    { x with state := .closed, openRow := -1, rowHitCount := 0 }
  | .activate => { x with state := .opened, openRow := r.row }
  | .refresh | .refreshBank => x
  | .srefEnter => { x with state := .sref }
  | .srefExit => { x with state := .closed }

/-- What a bank answers. -/
structure Answers (x : BankState) (cmd : Command c) (clk : Nat) (r : Command c) : Prop where
  allows : x.Allows r
  timing : x.cmdTiming r.cmdType ≤ clk
  same : r = { cmd with cmdType := r.cmdType }
  kind : r.cmdType = cmd.cmdType ∨ r.cmdType = .precharge ∨
    cmd.cmdType.isReadWrite = true ∧ (r.cmdType = .activate ∨ r.cmdType = .srefExit)
  notExit : cmd.cmdType ≠ .srefExit

theorem requiredType_allows {t : CommandType} (h : x.requiredType cmd = .ok t) :
    x.Allows { cmd with cmdType := t } ∧ cmd.cmdType ≠ .srefExit ∧
      (t = cmd.cmdType ∨ t = .precharge ∨
        cmd.cmdType.isReadWrite = true ∧ (t = .activate ∨ t = .srefExit)) := by
  unfold requiredType at h
  cases hstate : x.state with
  | opened =>
    by_cases hrow : cmd.row = x.openRow
    · cases hcmd : cmd.cmdType <;> simp only [hstate, hcmd, hrow, if_true] at h <;> cases h <;>
        simp [Allows, hstate, hrow]
    · cases hcmd : cmd.cmdType <;> simp only [hstate, hcmd, hrow, if_false] at h <;> cases h <;>
        simp [Allows, hstate]
  | closed =>
    cases hcmd : cmd.cmdType <;> simp only [hstate, hcmd] at h <;> cases h <;>
      simp [Allows, hstate, CommandType.isReadWrite, CommandType.isRead, CommandType.isWrite]
  | sref =>
    cases hcmd : cmd.cmdType <;> simp only [hstate, hcmd] at h <;> cases h <;>
      simp [Allows, hstate, CommandType.isReadWrite, CommandType.isRead, CommandType.isWrite]

theorem getReadyCommand_answers (h : x.getReadyCommand cmd clk = .ok (some r)) :
    x.Answers cmd clk r := by
  unfold getReadyCommand at h
  split at h
  · cases h
  · rename_i t hreq
    split at h
    · rename_i htime
      cases h
      obtain ⟨hallows, hexit, hkind⟩ := requiredType_allows hreq
      exact ⟨hallows, htime, rfl, hkind, hexit⟩
    · cases h

theorem requiredType_returns (hstate : x.state ≠ .sref)
    (hcmd : cmd.cmdType.isReadWrite = true ∨ cmd.cmdType.isRefresh = true) :
    ∃ t, x.requiredType cmd = .ok t := by
  unfold requiredType
  cases hx : x.state with
  | opened =>
    cases ht : cmd.cmdType <;>
      simp_all [CommandType.isReadWrite, CommandType.isRead, CommandType.isWrite,
        CommandType.isRefresh]
  | closed =>
    cases ht : cmd.cmdType <;>
      simp_all [CommandType.isReadWrite, CommandType.isRead, CommandType.isWrite,
        CommandType.isRefresh]
  | sref => exact absurd hx hstate

/-- A bank that is not in self refresh has an answer to everything that is queued. -/
theorem getReadyCommand_returns (hstate : x.state ≠ .sref)
    (hcmd : cmd.cmdType.isReadWrite = true ∨ cmd.cmdType.isRefresh = true) (clk : Nat) :
    ∃ answer, x.getReadyCommand cmd clk = .ok answer := by
  obtain ⟨t, ht⟩ := requiredType_returns hstate hcmd
  unfold getReadyCommand
  rw [ht]
  dsimp only
  split
  · exact ⟨_, rfl⟩
  · exact ⟨_, rfl⟩

theorem updateState_ok {x' : BankState} (h : x.updateState r = .ok x') : x' = x.after r := by
  unfold updateState at h
  unfold after
  cases hstate : x.state <;> cases hr : r.cmdType <;> simp only [hstate, hr] at h <;> cases h <;>
    rfl

theorem updateState_of_allows (h : x.Allows r) : x.updateState r = .ok (x.after r) := by
  unfold Allows at h
  unfold updateState after
  cases hr : r.cmdType <;> simp only [hr] at h ⊢ <;> simp [h]

/-- `UpdateState` takes a command only where the device does, up to the row of an access. -/
theorem state_of_updateState {x' : BankState} (h : x.updateState r = .ok x')
    (hrow : r.cmdType.isReadWrite = true → x.openRow = r.row) : x.Allows r := by
  unfold updateState at h
  unfold Allows
  cases hstate : x.state <;> cases hr : r.cmdType <;> simp only [hstate, hr] at h <;> cases h <;>
    simp_all [CommandType.isReadWrite, CommandType.isRead, CommandType.isWrite]

@[simp] theorem after_cmdTiming : (x.after r).cmdTiming = x.cmdTiming := by
  unfold after
  cases r.cmdType <;> rfl

/-! ### The update of the timing -/

variable {delays : List (CommandType × Int)}

@[simp] theorem updateTimings_state : (x.updateTimings delays clk).state = x.state := by
  unfold updateTimings
  exact Library.foldl_invariant (fun y : BankState => y.state = x.state) (fun _ _ _ h => h) rfl

@[simp] theorem updateTimings_openRow : (x.updateTimings delays clk).openRow = x.openRow := by
  unfold updateTimings
  exact Library.foldl_invariant (fun y : BankState => y.openRow = x.openRow) (fun _ _ _ h => h) rfl

@[simp] theorem updateTimings_rowHitCount :
    (x.updateTimings delays clk).rowHitCount = x.rowHitCount := by
  unfold updateTimings
  exact Library.foldl_invariant (fun y : BankState => y.rowHitCount = x.rowHitCount)
    (fun _ _ _ h => h) rfl

theorem updateTiming_le (t t' : CommandType) (time : Nat) :
    x.cmdTiming t ≤ (x.updateTiming t' time).cmdTiming t := by
  unfold updateTiming
  dsimp only
  by_cases ht : t = t'
  · subst ht
    rw [Function.update_self]
    exact Nat.le_max_left ..
  · rw [Function.update_of_ne ht]

/-- The earliest cycles only grow. -/
theorem updateTimings_le (t : CommandType) :
    x.cmdTiming t ≤ (x.updateTimings delays clk).cmdTiming t := by
  unfold updateTimings
  exact Library.foldl_invariant (fun y : BankState => x.cmdTiming t ≤ y.cmdTiming t)
    (fun y d _ h => h.trans (updateTiming_le ..)) le_rfl

/-- Every delay of the list is imposed. -/
theorem addDelay_le_updateTimings {d : CommandType × Int} (hd : d ∈ delays) :
    addDelay clk d.2 ≤ (x.updateTimings delays clk).cmdTiming d.1 := by
  induction delays generalizing x with
  | nil => simp at hd
  | cons d' delays ih =>
    rcases List.mem_cons.mp hd with rfl | hd
    · have hnow : addDelay clk d.2 ≤ (x.updateTiming d.1 (addDelay clk d.2)).cmdTiming d.1 := by
        show _ ≤ Function.update x.cmdTiming d.1 _ d.1
        rw [Function.update_self]
        exact Nat.le_max_right ..
      exact hnow.trans (updateTimings_le d.1)
    · exact ih hd

end BankState

/-! ## The channel -/

/-- The banks that decide whether a command can be issued. -/
def Command.Concerns (r : Command c) (b : BankId c) : Prop :=
  if r.cmdType = .refresh ∨ r.cmdType = .srefEnter then b.rank = r.bank.rank else b = r.bank

/-- The banks whose state a command changes. -/
def Command.Touches (r : Command c) (b : BankId c) : Prop :=
  if r.cmdType.isRankCMD then b.rank = r.bank.rank else b = r.bank

theorem Command.concerns_bank (r : Command c) : r.Concerns r.bank := by
  unfold Concerns
  split <;> rfl

instance (r : Command c) (b : BankId c) : Decidable (r.Touches b) :=
  inferInstanceAs (Decidable (if r.cmdType.isRankCMD then b.rank = r.bank.rank else b = r.bank))

/-- A command that can be issued at the cycle `clk`. -/
structure Ready (s : ChannelState c) (clk : Nat) (r : Command c) : Prop where
  allows : ∀ b, r.Concerns b → (s.bankStates b).Allows r
  timing : ∀ b, r.Concerns b → (s.bankStates b).cmdTiming r.cmdType ≤ clk
  window : r.cmdType = .activate → s.activationWindowOk r.bank.rank clk = true

theorem mem_banksOf {rank : Fin c.ranks} {b : BankId c} : b ∈ banksOf c rank ↔ b.rank = rank := by
  obtain ⟨i, j, k⟩ := b
  simp [banksOf]
  exact eq_comm

theorem nodup_banksOf (rank : Fin c.ranks) : (banksOf c rank).Nodup := by
  unfold banksOf
  rw [List.nodup_flatMap]
  refine ⟨fun j _ => ?_, ?_⟩
  · refine List.Nodup.map ?_ (List.nodup_finRange _)
    intro k k' hk
    exact (BankId.mk.inj hk).2.2
  · refine (List.nodup_finRange _).imp ?_
    intro j j' hne b hb hb'
    obtain ⟨k, -, rfl⟩ := List.mem_map.mp hb
    obtain ⟨k', -, heq⟩ := List.mem_map.mp hb'
    exact hne (BankId.mk.inj heq).2.1.symm

theorem length_banksOf (rank : Fin c.ranks) : (banksOf c rank).length = c.banks := by
  simp [banksOf, Config.banks, List.length_flatMap]

namespace ChannelState

variable {s s' : ChannelState c}

/-- The loop over the banks of a rank found a bank that needs another command first, or all banks
are ready. -/
theorem readyInRank_cases {bs : List (BankId c)} {numReady : Nat} {last : Option (Command c)}
    (h : s.readyInRank cmd clk bs numReady last = .ok (some r))
    (hcount : numReady + bs.length ≤ c.banks) :
    (∃ b ∈ bs, ∃ ready, (s.bankStates b).getReadyCommand cmd clk = .ok (some ready) ∧
      ready.cmdType ≠ cmd.cmdType ∧ r = { ready with bank := b, row := -1, column := -1 }) ∨
    (numReady + bs.length = c.banks ∧
      (∀ b ∈ bs, ∃ ready, (s.bankStates b).getReadyCommand cmd clk = .ok (some ready) ∧
        ready.cmdType = cmd.cmdType) ∧ (bs = [] → last = some r) ∧ (bs ≠ [] → r = cmd)) := by
  induction bs generalizing numReady last with
  | nil =>
    simp only [readyInRank] at h
    split at h
    · rename_i hall
      cases h
      exact Or.inr ⟨hall, by simp, fun _ => rfl, by simp⟩
    · cases h
  | cons b bs ih =>
    simp only [List.length_cons] at hcount
    simp only [readyInRank] at h
    split at h
    · cases h
    · -- a bank that is not ready leaves the count too small
      rcases ih h (by omega) with ⟨b', hb', hrest⟩ | ⟨hall, -⟩
      · exact Or.inl ⟨b', List.mem_cons_of_mem _ hb', hrest⟩
      · omega
    · rename_i ready hready
      split at h
      · rename_i hne
        cases h
        exact Or.inl ⟨b, List.mem_cons_self, ready, hready, hne, rfl⟩
      · rename_i heq
        have heq : ready.cmdType = cmd.cmdType := by simpa using heq
        rcases ih h (by omega) with ⟨b', hb', hrest⟩ | ⟨hall, hbanks, hnil, hcons⟩
        · exact Or.inl ⟨b', List.mem_cons_of_mem _ hb', hrest⟩
        · refine Or.inr ⟨?_, ?_, by simp, fun _ => ?_⟩
          · simp only [List.length_cons]
            omega
          · intro b' hb'
            rcases List.mem_cons.mp hb' with rfl | hb'
            · exact ⟨ready, hready, heq⟩
            · exact hbanks b' hb'
          · by_cases hbs : bs = []
            · have hsame := (BankState.getReadyCommand_answers hready).same
              rw [heq] at hsame
              exact (Option.some.inj (hnil hbs)).symm.trans hsame
            · exact hcons hbs

/-- What `GetReadyCommand` returns is ready. It is the command itself, or one that this needs
first. -/
theorem getReadyCommand_ready (h : s.getReadyCommand cmd clk = .ok (some r)) :
    Ready s clk r ∧ r.hexAddr = cmd.hexAddr ∧ r.bank.rank = cmd.bank.rank ∧
      (cmd.cmdType.isRankCMD = false → r = { cmd with cmdType := r.cmdType }) ∧
      (r.cmdType = cmd.cmdType → r = cmd) ∧
      (r.cmdType = cmd.cmdType ∨ r.cmdType = .precharge ∨
        cmd.cmdType.isReadWrite = true ∧ (r.cmdType = .activate ∨ r.cmdType = .srefExit)) := by
  unfold getReadyCommand at h
  split at h
  · rename_i hrank
    rcases readyInRank_cases h (by rw [length_banksOf, Nat.zero_add]) with
      ⟨b, hb, ready, hready, hne, rfl⟩ | ⟨-, hbanks, -, hcons⟩
    · have hans := BankState.getReadyCommand_answers hready
      have hkind : ready.cmdType = .precharge := by
        rcases hans.kind with hk | hk | ⟨hrw, -⟩
        · exact absurd hk hne
        · exact hk
        · simp [CommandType.isRankCMD_of_isReadWrite hrw] at hrank
      refine ⟨⟨?_, ?_, ?_⟩, ?_, mem_banksOf.mp hb, by simp [hrank], fun heq => absurd heq hne,
        Or.inr (Or.inl hkind)⟩
      · intro b' hb'
        simp only [Command.Concerns, hkind] at hb'
        have hallows := hans.allows
        subst hb'
        simpa [BankState.Allows, hkind] using hallows
      · intro b' hb'
        simp only [Command.Concerns, hkind] at hb'
        have htiming := hans.timing
        subst hb'
        exact htiming
      · simp [hkind]
      · rw [hans.same]
    · have hne : banksOf c cmd.bank.rank ≠ [] :=
        List.ne_nil_of_mem (mem_banksOf.mpr (rfl : (cmd.bank).rank = cmd.bank.rank))
      obtain rfl := hcons hne
      have hall : ∀ b, b.rank = r.bank.rank → (s.bankStates b).Answers r clk r := by
        intro b hb
        obtain ⟨ready, hready, heq⟩ := hbanks b (mem_banksOf.mpr hb)
        have hans := BankState.getReadyCommand_answers hready
        have hsame := hans.same
        rw [heq] at hsame
        have hready' : ready = r := hsame
        rwa [hready'] at hans
      have hexit := (hall r.bank rfl).notExit
      have hconcerns : ∀ b, r.Concerns b → b.rank = r.bank.rank := by
        intro b hb
        unfold Command.Concerns at hb
        split at hb
        · exact hb
        · rw [hb]
      refine ⟨⟨fun b hb => (hall b (hconcerns b hb)).allows,
        fun b hb => (hall b (hconcerns b hb)).timing, ?_⟩, rfl, rfl, by simp [hrank], by simp,
        Or.inl rfl⟩
      intro hact
      simp [hact, CommandType.isRankCMD] at hrank
  · rename_i hrank
    split at h
    · cases h
    · cases h
    · rename_i ready hready
      have hans := BankState.getReadyCommand_answers hready
      split at h
      · cases h
      · rename_i hwindow
        cases h
        have hbank : r.bank = cmd.bank := by rw [hans.same]
        have hconcerns : ∀ b, r.Concerns b → b = cmd.bank := by
          intro b hb
          unfold Command.Concerns at hb
          split at hb
          · rename_i hkind
            rcases hans.kind with hk | hk | ⟨-, hk | hk⟩
            · rw [hk] at hkind
              rcases hkind with hk' | hk' <;> simp [hk', CommandType.isRankCMD] at hrank
            all_goals simp [hk] at hkind
          · rw [hb, hbank]
        refine ⟨⟨?_, ?_, ?_⟩, by rw [hans.same], by rw [hbank], fun _ => hans.same, ?_, hans.kind⟩
        · intro b hb
          rw [hconcerns b hb]
          exact hans.allows
        · intro b hb
          rw [hconcerns b hb]
          exact hans.timing
        · intro hact
          simpa [hact] using hwindow
        · intro heq
          rw [hans.same, heq]

/-! ### What a command does to the channel -/

/-- The states of the banks of `bs` after the command. -/
def touched (s : ChannelState c) (r : Command c) (bs : List (BankId c)) : ChannelState c :=
  { s with bankStates := fun b => if b ∈ bs then (s.bankStates b).after r else s.bankStates b }

theorem touched_cons {b : BankId c} {bs : List (BankId c)} (hb : b ∉ bs) {x : BankState}
    (hx : x = (s.bankStates b).after r) :
    touched { s with bankStates := Function.update s.bankStates b x } r bs =
      s.touched r (b :: bs) := by
  unfold touched
  congr 1
  funext b'
  by_cases heq : b' = b
  · subst heq
    simp [hb, hx]
  · simp [heq]

/-- The loop of `UpdateState` over different banks. -/
theorem foldlM_updateBank {bs : List (BankId c)} (hnodup : bs.Nodup)
    (h : bs.foldlM (updateBank r) s = .ok s') :
    s' = s.touched r bs ∧ ∀ b ∈ bs, ∃ x, (s.bankStates b).updateState r = .ok x := by
  induction bs generalizing s with
  | nil =>
    cases h
    simp [touched]
  | cons b bs ih =>
    obtain ⟨hb, hbs⟩ := List.nodup_cons.mp hnodup
    rw [List.foldlM_cons] at h
    cases hx : (s.bankStates b).updateState r with
    | error e =>
      simp only [updateBank, hx] at h
      cases h
    | ok x =>
      simp only [updateBank, hx] at h
      obtain ⟨hs', hrest⟩ := ih hbs h
      rw [touched_cons hb (BankState.updateState_ok hx)] at hs'
      refine ⟨hs', fun b' hb' => ?_⟩
      rcases List.mem_cons.mp hb' with rfl | hb'
      · exact ⟨x, hx⟩
      · have hne : b' ≠ b := fun heq => hb (heq ▸ hb')
        simpa [Function.update_of_ne hne] using hrest b' hb'

theorem foldlM_updateBank_of_allows {bs : List (BankId c)} (hnodup : bs.Nodup)
    (h : ∀ b ∈ bs, (s.bankStates b).Allows r) :
    bs.foldlM (updateBank r) s = .ok (s.touched r bs) := by
  induction bs generalizing s with
  | nil => simp [touched, pure, Except.pure]
  | cons b bs ih =>
    obtain ⟨hb, hbs⟩ := List.nodup_cons.mp hnodup
    have hx := BankState.updateState_of_allows (h b List.mem_cons_self)
    rw [List.foldlM_cons]
    simp only [updateBank, hx]
    rw [← touched_cons hb rfl]
    refine ih hbs fun b' hb' => ?_
    have hne : b' ≠ b := fun heq => hb (heq ▸ hb')
    simpa [Function.update_of_ne hne] using h b' (List.mem_cons_of_mem _ hb')

/-- The refreshes that wait after a command. -/
def refreshQAfter (s : ChannelState c) (r : Command c) : List (Command c) :=
  match r.cmdType with
  | .refresh => s.refreshQ.eraseP fun cmd => cmd.bank.rank = r.bank.rank
  | .refreshBank => s.refreshQ.eraseP fun cmd => cmd.bank = r.bank
  | _ => s.refreshQ

/-- The ranks in self refresh after a command. -/
def srefAfter (s : ChannelState c) (r : Command c) : Fin c.ranks → Bool :=
  match r.cmdType with
  | .srefEnter => Function.update s.rankIsSref r.bank.rank true
  | .srefExit => Function.update s.rankIsSref r.bank.rank false
  | _ => s.rankIsSref

/-- The activation windows after a command. -/
def windowsAfter (s : ChannelState c) (r : Command c) (clk : Nat) : ChannelState c :=
  if r.cmdType = .activate then s.updateActivationTimes r.bank.rank clk else s

/-- The channel after a command. -/
def applied (s : ChannelState c) (r : Command c) (clk : Nat) : ChannelState c :=
  { s.windowsAfter r clk with
    bankStates := fun b =>
      (if r.Touches b then (s.bankStates b).after r else s.bankStates b).updateTimings
        (delaysOn r.cmdType r.bank b) clk
    refreshQ := s.refreshQAfter r
    rankIsSref := s.srefAfter r }

@[simp] theorem windowsAfter_bankStates : (s.windowsAfter r clk).bankStates = s.bankStates := by
  unfold windowsAfter
  split <;> rfl

@[simp] theorem windowsAfter_rankIdleCycles :
    (s.windowsAfter r clk).rankIdleCycles = s.rankIdleCycles := by
  unfold windowsAfter
  split <;> rfl

/-- The state part of the update. -/
def stateAfter (s : ChannelState c) (r : Command c) : ChannelState c :=
  { s with
    bankStates := fun b => if r.Touches b then (s.bankStates b).after r else s.bankStates b
    refreshQ := s.refreshQAfter r
    rankIsSref := s.srefAfter r }

theorem updateTiming_stateAfter : (s.stateAfter r).updateTiming r clk = s.applied r clk := by
  unfold updateTiming applied windowsAfter stateAfter
  dsimp only
  split <;> rfl

theorem touches_iff_of_rank (hrank : r.cmdType.isRankCMD = true) {b : BankId c} :
    r.Touches b ↔ b ∈ banksOf c r.bank.rank := by
  rw [mem_banksOf]
  simp [Command.Touches, hrank]

theorem touches_iff_of_bank (hrank : r.cmdType.isRankCMD = false) {b : BankId c} :
    r.Touches b ↔ b = r.bank := by
  simp [Command.Touches, hrank]

theorem rankUpdated_touched (hrank : r.cmdType.isRankCMD = true) :
    (s.touched r (banksOf c r.bank.rank)).rankUpdated r = s.stateAfter r := by
  unfold stateAfter rankUpdated
  simp only [touches_iff_of_rank hrank]
  cases hr : r.cmdType <;> simp only [hr] at hrank ⊢ <;>
    first
    | exact absurd hrank (by decide)
    | simp [CommandType.isRefresh, touched, rankRefreshed, refreshQAfter, srefAfter, hr]

theorem bankUpdated_update (hrank : r.cmdType.isRankCMD = false) :
    bankUpdated { s with
      bankStates := Function.update s.bankStates r.bank ((s.bankStates r.bank).after r) } r =
      s.stateAfter r := by
  have hbanks : Function.update s.bankStates r.bank ((s.bankStates r.bank).after r) =
      fun b => if b = r.bank then (s.bankStates b).after r else s.bankStates b := by
    funext b
    by_cases hb : b = r.bank
    · subst hb
      simp
    · simp [hb]
  unfold stateAfter bankUpdated
  simp only [touches_iff_of_bank hrank, hbanks]
  cases hr : r.cmdType <;> simp only [hr] at hrank ⊢ <;>
    first
    | exact absurd hrank (by decide)
    | simp [CommandType.isRefresh, bankRefreshed, refreshQAfter, srefAfter, hr]

/-- `UpdateState` that returns. -/
theorem updateState_ok (h : s.updateState r = .ok s') :
    s' = s.stateAfter r ∧ ∀ b, r.Touches b → ∃ x, (s.bankStates b).updateState r = .ok x := by
  unfold updateState at h
  split at h
  · rename_i hrank
    split at h
    · cases h
    · rename_i t ht
      cases h
      obtain ⟨rfl, hbanks⟩ := foldlM_updateBank (nodup_banksOf _) ht
      exact ⟨rankUpdated_touched hrank, fun b hb => hbanks b ((touches_iff_of_rank hrank).mp hb)⟩
  · rename_i hrank
    have hrank : r.cmdType.isRankCMD = false := by simpa using hrank
    split at h
    · cases h
    · rename_i t ht
      cases h
      unfold updateBank at ht
      split at ht
      · cases ht
      · rename_i x hx
        cases ht
        obtain rfl := BankState.updateState_ok hx
        refine ⟨bankUpdated_update hrank, fun b hb => ?_⟩
        rw [(touches_iff_of_bank hrank).mp hb]
        exact ⟨_, hx⟩

/-- `UpdateState` returns when the banks allow the command. -/
theorem updateState_of_allows (h : ∀ b, r.Touches b → (s.bankStates b).Allows r) :
    s.updateState r = .ok (s.stateAfter r) := by
  unfold updateState
  split
  · rename_i hrank
    rw [foldlM_updateBank_of_allows (nodup_banksOf _) fun b hb =>
      h b ((touches_iff_of_rank hrank).mpr hb)]
    dsimp only
    rw [rankUpdated_touched hrank]
  · rename_i hrank
    have hrank : r.cmdType.isRankCMD = false := by simpa using hrank
    have hx := BankState.updateState_of_allows (h r.bank ((touches_iff_of_bank hrank).mpr rfl))
    unfold updateBank
    rw [hx]
    dsimp only
    rw [bankUpdated_update hrank]

theorem updateTimingAndStates_ok (h : s.updateTimingAndStates r clk = .ok s') :
    s' = s.applied r clk ∧ ∀ b, r.Touches b → ∃ x, (s.bankStates b).updateState r = .ok x := by
  unfold updateTimingAndStates at h
  split at h
  · cases h
  · rename_i t ht
    cases h
    obtain ⟨rfl, hbanks⟩ := updateState_ok ht
    exact ⟨updateTiming_stateAfter, hbanks⟩

/-- A command that is ready is concerned with all banks that it touches, unless it ends a self
refresh. -/
theorem allows_of_touches (h : Ready s clk r) (hexit : r.cmdType ≠ .srefExit) {b : BankId c}
    (hb : r.Touches b) : (s.bankStates b).Allows r := by
  refine h.allows b ?_
  unfold Command.Touches at hb
  unfold Command.Concerns
  split at hb
  · rename_i hrank
    rw [if_pos]
    · exact hb
    · revert hrank hexit
      cases r.cmdType <;> decide
  · rename_i hrank
    rw [if_neg]
    · exact hb
    · revert hrank
      cases r.cmdType <;> decide

theorem updateTimingAndStates_of_ready (h : Ready s clk r) (hexit : r.cmdType ≠ .srefExit) :
    s.updateTimingAndStates r clk = .ok (s.applied r clk) := by
  unfold updateTimingAndStates
  rw [updateState_of_allows fun b hb => allows_of_touches h hexit hb]
  dsimp only
  rw [updateTiming_stateAfter]

end ChannelState

end NetSim.Memory
