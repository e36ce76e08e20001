import NetSim.Memory.Device

/-!
# The data bus of a channel

A `READ` or a `WRITE` occupies the data bus for a burst, `RL` or `WL` cycles after the command. The
timing tables know nothing of the bus; they are delays between commands. With delays that are not
negative they keep the bursts of any two commands of a run apart (`data_bursts_apart`). For two
bursts on a bank that was closed by the first of them there is no entry in the tables, and the
`ACTIVATE` between them keeps them apart.
-/

namespace NetSim.Memory

open Common Library

variable {c : Config}

/-- What the tables need to keep the bursts apart. -/
structure Config.BusTimings (c : Config) : Prop where
  switch : 0 ≤ c.timing.tRTRS
  writeToRead : 0 ≤ c.rl + c.sameBankgroup c.timing.tWTRL c.timing.tWTRS
  writeToReadOther : 0 ≤ c.rl + c.timing.tWTRS
  readAgain : 0 ≤ c.timing.al + c.timing.tRTP + c.timing.tRP + c.activateToRead
  readThenWrite : c.rl ≤ c.timing.al + c.timing.tRTP + c.timing.tRP + c.activateToWrite + c.wl
  writeThenRead : 0 ≤ c.timing.tWR + c.timing.tRP + c.activateToRead + c.rl
  writeAgain : 0 ≤ c.timing.tWR + c.timing.tRP + c.activateToWrite + c.wl

/-- The cycles from a command to its burst. -/
def Config.latency (c : Config) (t : CommandType) : Int := if t.isWrite then c.wl else c.rl

namespace Issued

/-- The first cycle of the burst. -/
def burstStart (e : Issued c) : Int := e.clk + c.latency e.cmd.cmdType

/-- The burst of the first command ends before that of the second starts. -/
def BurstBefore (earlier later : Issued c) : Prop :=
  earlier.burstStart + c.burstCycle ≤ later.burstStart

end Issued

/-! ## Two bursts with a delay between them -/

theorem Config.BusTimings.delay (ht : c.BusTimings) (t u : CommandType) (a b : BankId c) :
    c.latency t + c.burstCycle ≤ burstDelay t u a b + c.latency u := by
  have hswitch := ht.switch
  have hwr := ht.writeToRead
  have hwrs := ht.writeToReadOther
  have hpick {rr rw wr ww : Int} (hrr : c.burstCycle ≤ rr) (hrw : c.rl + c.burstCycle ≤ rw + c.wl)
      (hwr : c.wl + c.burstCycle ≤ wr + c.rl) (hww : c.burstCycle ≤ ww) :
      c.latency t + c.burstCycle ≤ burstPick rr rw wr ww t u + c.latency u := by
    unfold burstPick Config.latency
    cases t.isWrite <;> cases u.isWrite <;> simp <;> omega
  have hrw : c.rl + c.burstCycle ≤ c.readToWrite + c.wl := by
    unfold Config.readToWrite
    omega
  unfold burstDelay
  split
  · split
    · refine hpick (le_max_left _ _) hrw ?_ (le_max_left _ _)
      unfold Config.writeToReadL Config.writeDelay
      omega
    · refine hpick (le_max_left _ _) hrw ?_ (le_max_left _ _)
      unfold Config.writeToReadS Config.writeDelay
      omega
  · refine hpick ?_ ?_ ?_ (le_refl _)
    · unfold Config.readToReadO
      omega
    · unfold Config.readToWriteO Config.readDelay Config.writeDelay
      omega
    · unfold Config.writeToReadO Config.readDelay Config.writeDelay
      omega

/-- A delay of the tables from a command to a later one. -/
theorem Issued.Spaced.delay {e e' : Issued c} (h : e.Spaced e') {d : Int}
    (hd : (e'.cmd.cmdType, d) ∈ ChannelState.delaysOn e.cmd.cmdType e.cmd.bank e'.cmd.bank) :
    (e.clk : Int) + d ≤ e'.clk :=
  h e'.cmd.bank e'.cmd.concerns_bank _ hd rfl

/-! ## Two bursts on a bank that was closed between them -/

/-- A bank that was idle and has an active row has been activated. -/
theorem Device.Executes.activated {before : List (Issued c)} {b : BankId c} {row : Int}
    (hidle : ∀ d, Device.Executes before d → d b = .idle) {mid : List (Issued c)} {d : Device c}
    (h : Device.Executes (mid ++ before) d) (hd : d b = .active row) :
    ∃ e ∈ mid, e.cmd.cmdType = .activate ∧ e.cmd.bank = b := by
  induction mid generalizing d row with
  | nil =>
    rw [hidle d h] at hd
    cases hd
  | cons e mid ih =>
    cases h with
    | @next _ d₀ _ _ prior htakes =>
      have hearlier {row : Int} (hrow : d₀ b = .active row) :
          ∃ e' ∈ e :: mid, e'.cmd.cmdType = .activate ∧ e'.cmd.bank = b := by
        obtain ⟨e', he', hact⟩ := ih prior hrow
        exact ⟨e', List.mem_cons_of_mem _ he', hact⟩
      have htake := htakes b
      split at htake
      · rename_i htouches
        rw [hd] at htake
        rcases RowState.takes_active htake with hrow | hact
        · exact hearlier hrow
        · refine ⟨e, List.mem_cons_self, hact, ?_⟩
          have hbank : e.cmd.cmdType.isRankCMD = false := by
            rw [hact]
            rfl
          exact ((ChannelState.touches_iff_of_bank hbank).mp htouches).symm
      · exact hearlier (htake.symm.trans hd)

/-- The burst before an activation and the burst after it. -/
theorem BurstBefore.of_activate (ht : c.BusTimings) {e act e' : Issued c} {b : BankId c}
    (hclose : e.cmd.cmdType = .readPrecharge ∨ e.cmd.cmdType = .writePrecharge)
    (hact : act.cmd.cmdType = .activate) (hrw : e'.cmd.cmdType.isReadWrite = true)
    (hbank : e.cmd.bank = b) (hactBank : act.cmd.bank = b) (hbank' : e'.cmd.bank = b)
    (hfirst : e.Spaced act) (hsecond : act.Spaced e') : e.BurstBefore e' := by
  have hclosed {d : Int} (hd : (CommandType.activate, d) ∈ c.sameBank e.cmd.cmdType) :
      (e.clk : Int) + d ≤ act.clk := by
    refine hfirst.delay ?_
    rw [hact, hbank, hactBank]
    unfold ChannelState.delaysOn
    rcases hclose with hclose | hclose <;> simpa [hclose, CommandType.isRankCMD] using hd
  have hopened {d : Int} (hd : (e'.cmd.cmdType, d) ∈ c.sameBank .activate) :
      (act.clk : Int) + d ≤ e'.clk := by
    refine hsecond.delay ?_
    rw [hact, hbank', hactBank]
    unfold ChannelState.delaysOn
    simpa [CommandType.isRankCMD] using hd
  have hreadAgain := ht.readAgain
  have hreadThenWrite := ht.readThenWrite
  have hwriteThenRead := ht.writeThenRead
  have hwriteAgain := ht.writeAgain
  have hcolumn := hopened (d := if e'.cmd.cmdType.isWrite then c.activateToWrite
    else c.activateToRead) (by
      rcases CommandType.isReadWrite_cases hrw with hr | hr | hr | hr <;>
        simp [hr, Config.sameBank, Config.afterBurst, CommandType.isWrite])
  unfold Issued.BurstBefore Issued.burstStart Config.latency
  rcases hclose with hclose | hclose
  · have hdelay := hclosed (d := c.readpToAct)
      (by simp [hclose, Config.sameBank, Config.afterClosing])
    unfold Config.readpToAct at hdelay
    rw [hclose]
    cases hw : e'.cmd.cmdType.isWrite <;> rw [hw] at hcolumn <;>
      simp [CommandType.isWrite] at hcolumn ⊢ <;> omega
  · have hdelay := hclosed (d := c.writeToActivate)
      (by simp [hclose, Config.sameBank, Config.afterClosing])
    unfold Config.writeToActivate Config.writeToPrecharge Config.prechargeToActivate at hdelay
    rw [hclose]
    cases hw : e'.cmd.cmdType.isWrite <;> rw [hw] at hcolumn <;>
      simp [CommandType.isWrite] at hcolumn ⊢ <;> omega

/-! ## Runs -/

/-- Two commands of a trace that the device executes. -/
theorem burstBefore_of_executes (ht : c.BusTimings) {e e' : Issued c} {mid before : List (Issued c)}
    {d : Device c} (hlegal : Device.Executes (e' :: (mid ++ e :: before)) d)
    (hspaced : (e' :: (mid ++ e :: before)).Pairwise fun later earlier => earlier.Spaced later)
    (hrw : e.cmd.cmdType.isReadWrite = true) (hrw' : e'.cmd.cmdType.isReadWrite = true) :
    e.BurstBefore e' := by
  obtain ⟨hlater, hrest⟩ := List.pairwise_cons.mp hspaced
  have hpair : e.Spaced e' := hlater e (by simp)
  by_cases hopen : e.cmd.bank = e'.cmd.bank → e.cmd.cmdType = .read ∨ e.cmd.cmdType = .write
  · have hdelay := hpair.delay (burstDelay_mem hrw hrw' hopen)
    have hbus := ht.delay e.cmd.cmdType e'.cmd.cmdType e.cmd.bank e'.cmd.bank
    unfold Issued.BurstBefore Issued.burstStart
    omega
  · -- the first burst has closed the bank, so there is an activation between the two
    obtain ⟨hbank, hclose⟩ := Classical.not_imp.mp hopen
    have htouches {x : Issued c} (hx : x.cmd.cmdType.isReadWrite = true) :
        x.cmd.Touches x.cmd.bank :=
      (ChannelState.touches_iff_of_bank (CommandType.isRankCMD_of_isReadWrite hx)).mpr rfl
    have hidle : ∀ d, Device.Executes (e :: before) d → d e.cmd.bank = .idle := by
      intro d hd
      cases hd with
      | next _ prior htakes =>
        have htake := htakes e.cmd.bank
        rw [if_pos (htouches hrw)] at htake
        rcases (RowState.takes_burst htake hrw).2 with hidle | hopen
        · exact hidle
        · exact absurd hopen hclose
    cases hlegal with
    | next _ prior htakes =>
      have htake := htakes e'.cmd.bank
      rw [if_pos (htouches hrw')] at htake
      have hactive := (RowState.takes_burst htake hrw').1
      rw [← hbank] at hactive
      obtain ⟨act, hmem, hact, hactBank⟩ := prior.activated hidle hactive
      obtain ⟨-, -, hcross⟩ := List.pairwise_append.mp hrest
      refine BurstBefore.of_activate ht ?_ hact hrw' rfl hactBank hbank.symm
        (hcross act hmem e List.mem_cons_self) (hlater act (List.mem_append_left _ hmem))
      rcases CommandType.isReadWrite_cases hrw with hr | hr | hr | hr
      · exact absurd (Or.inl hr) hclose
      · exact Or.inl hr
      · exact absurd (Or.inr hr) hclose
      · exact Or.inr hr

/-- **The data bus is never used twice.** In every run the burst of a read or a write ends before
the burst of any later read or write of the channel starts. -/
theorem data_bursts_apart (ht : c.BusTimings) {s : Controller c} (h : Controller.Run s) :
    s.cmdTrace.Pairwise fun later earlier => later.cmd.cmdType.isReadWrite = true →
      earlier.cmd.cmdType.isReadWrite = true → earlier.BurstBefore later := by
  have hlegal := executes_invariant.run h
  have hspaced := (timed_invariant.run h).spaced
  generalize s.device = d at hlegal
  generalize s.cmdTrace = trace at hlegal hspaced
  induction trace generalizing d with
  | nil => exact .nil
  | cons e' trace ih =>
    refine List.pairwise_cons.mpr ⟨fun e he hrw' hrw => ?_, ?_⟩
    · obtain ⟨mid, before, rfl⟩ := List.append_of_mem he
      exact burstBefore_of_executes ht hlegal hspaced hrw hrw'
    · cases hlegal with
      | next _ prior _ => exact ih _ prior (List.pairwise_cons.mp hspaced).2

theorem hbm2_busTimings : Config.hbm2.BusTimings := by
  constructor <;> decide

theorem data_bursts_apart_two_reads : ∃ s : Controller .hbm2, Controller.Run s ∧
    s.cmdTrace.map (fun e => (e.clk, e.cmd.cmdType)) =
      [(17, .read), (15, .read), (1, .activate)] ∧
    s.cmdTrace.Pairwise fun later earlier => later.cmd.cmdType.isReadWrite = true →
      earlier.cmd.cmdType.isReadWrite = true → earlier.BurstBefore later := by
  obtain ⟨s, hs, htrace⟩ := Controller.run_two_reads
  exact ⟨s, hs, htrace, data_bursts_apart hbm2_busTimings hs⟩

end NetSim.Memory
