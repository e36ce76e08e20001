import NetSim.Memory.Runs
import NetSim.Library.Window

/-!
# The timing of the commands

Any two commands of a run are as far apart as the timing tables ask (`commands_spaced`), and no
rank is activated more often than its activation windows allow (`activations_spaced`). The bank
states hold the earliest cycle of each kind of command, which bounds the delays of all commands that
were issued before.
-/

namespace NetSim.Memory

open Common Library

variable {c : Config}

namespace Controller

variable {s s' : Controller c} {r : Command c}

/-- The two controllers have the same device and the same trace. -/
structure SameDevice (s s' : Controller c) : Prop where
  bankStates : s'.channelState.bankStates = s.channelState.bankStates
  fourAw : s'.channelState.fourAw = s.channelState.fourAw
  thirtyTwoAw : s'.channelState.thirtyTwoAw = s.channelState.thirtyTwoAw
  trace : s'.cmdTrace = s.cmdTrace
  clk : s.clk ≤ s'.clk

/-- A move issues a command or leaves the device alone. -/
theorem Move.device (h : Move s s') :
    SameDevice s s' ∨ ∃ r, Origin s r ∧ Issuable s r ∧ s' = (s.leaves r).issued r := by
  cases h with
  | issue horigin hissue => exact Or.inr ⟨_, horigin, hissue, rfl⟩
  | @drop r =>
    obtain ⟨q, hq⟩ := s.leaves_eq r
    rw [hq]
    exact Or.inl ⟨rfl, rfl, rfl, rfl, le_rfl⟩
  | @schedule src => cases src <;> exact Or.inl ⟨rfl, rfl, rfl, rfl, le_rfl⟩
  | tick => exact Or.inl ⟨rfl, rfl, rfl, rfl, Nat.le_succ _⟩
  | due | turn | idle | drain => exact Or.inl ⟨rfl, rfl, rfl, rfl, le_rfl⟩

theorem Added.device {addr : Addr} {isWrite : Bool} (h : Added s addr isWrite s') :
    SameDevice s s' := by
  cases h with
  | write | read => cases destination c _ <;> exact ⟨rfl, rfl, rfl, rfl, le_rfl⟩
  | merge | forward | join => exact ⟨rfl, rfl, rfl, rfl, le_rfl⟩

/-- A property of the device and its trace. -/
structure DeviceInvariant (I : Controller c → Prop) : Prop where
  init : I init
  same : ∀ s s', I s → SameDevice s s' → I s'
  issue : ∀ s r, I s → Origin s r → Issuable s r → I (s.issued r)

namespace DeviceInvariant

variable {I : Controller c → Prop}

theorem move (h : DeviceInvariant I) (hI : I s) (hmove : Move s s') : I s' := by
  rcases hmove.device with hdevice | ⟨r, horigin, hissuable, rfl⟩
  · exact h.same s s' hI hdevice
  · obtain ⟨q, hq⟩ := s.leaves_eq r
    refine h.same _ _ (h.issue s r hI horigin hissuable) ?_
    rw [hq]
    exact ⟨rfl, rfl, rfl, rfl, le_rfl⟩

theorem added {addr : Addr} {isWrite : Bool} (h : DeviceInvariant I) (hI : I s)
    (hadded : Added s addr isWrite s') : I s' :=
  h.same s s' hI hadded.device

theorem returned (h : DeviceInvariant I) (hI : I s) (ts : List Transaction) :
    I { s with returnQueue := ts } :=
  h.same s _ hI ⟨rfl, rfl, rfl, rfl, le_rfl⟩

/-- The invariant rule for what depends on the device and its trace only. -/
theorem run (h : DeviceInvariant I) (hrun : Run s) : I s := by
  refine (hrun.invariant I h.init ?_ ?_ ?_).1
  · intro s s' _ hI hmove
    exact h.move hI hmove
  · intro s addr isWrite s' hI _ hadded
    exact h.added hI hadded
  · intro s before t after hI _
    exact h.returned hI _

end DeviceInvariant

end Controller

open Controller

/-! ## The timing tables -/

/-- The delays that the first command imposes on the banks that the second one concerns have
passed. -/
def Issued.Spaced (earlier later : Issued c) : Prop :=
  ∀ b, later.cmd.Concerns b →
    ∀ d ∈ ChannelState.delaysOn earlier.cmd.cmdType earlier.cmd.bank b,
      d.1 = later.cmd.cmdType → (earlier.clk : Int) + d.2 ≤ later.clk

/-- The earliest cycles of the banks account for all commands of the trace. -/
structure Timed (s : Controller c) : Prop where
  bound : ∀ e ∈ s.cmdTrace, ∀ b,
    ∀ d ∈ ChannelState.delaysOn e.cmd.cmdType e.cmd.bank b,
      addDelay e.clk d.2 ≤ (s.channelState.bankStates b).cmdTiming d.1
  spaced : s.cmdTrace.Pairwise fun later earlier => earlier.Spaced later

theorem Timed.same {s s' : Controller c} (h : Timed s) (hsame : SameDevice s s') : Timed s' where
  bound := by
    rw [hsame.trace, hsame.bankStates]
    exact h.bound
  spaced := by
    rw [hsame.trace]
    exact h.spaced

theorem Timed.issued {s : Controller c} {r : Command c} (h : Timed s)
    (hready : Ready s.channelState s.clk r) : Timed (s.issued r) where
  bound e he b d hd := by
    show _ ≤ (BankState.updateTimings _ _ _).cmdTiming d.1
    rcases List.mem_cons.mp he with rfl | he
    · exact BankState.addDelay_le_updateTimings hd
    · refine (h.bound e he b d hd).trans (le_trans ?_ (BankState.updateTimings_le d.1))
      split
      · rw [BankState.after_cmdTiming]
      · exact le_rfl
  spaced := by
    refine List.pairwise_cons.mpr ⟨fun e he b hb d hd htype => ?_, h.spaced⟩
    have hbound := h.bound e he b d hd
    have htime : (s.channelState.bankStates b).cmdTiming r.cmdType ≤ s.clk := hready.timing b hb
    have htype : d.1 = r.cmdType := htype
    have hdelay := le_addDelay e.clk d.2
    rw [htype] at hbound
    show (e.clk : Int) + d.2 ≤ s.clk
    omega

theorem timed_invariant : DeviceInvariant (Timed (c := c)) where
  init := ⟨by simp [init], by simp [init]⟩
  same _ _ h hsame := h.same hsame
  issue _ _ h horigin _ := h.issued horigin.ready

/-- Any two commands of a run are as far apart as the timing tables ask. -/
theorem commands_spaced {s : Controller c} (h : Run s) :
    s.cmdTrace.Pairwise fun later earlier => earlier.Spaced later :=
  (timed_invariant.run h).spaced

theorem commands_spaced_two_reads : ∃ s : Controller .hbm2, Run s ∧ s.cmdTrace.length = 3 ∧
    s.cmdTrace.Pairwise fun later earlier => earlier.Spaced later := by
  obtain ⟨s, hs, htrace⟩ := run_two_reads
  refine ⟨s, hs, ?_, commands_spaced hs⟩
  rw [← List.length_map, htrace]
  rfl

/-! ## Delays between bursts -/

/-- One of four delays, from a read or a write to a read or a write. -/
def burstPick (readRead readWrite writeRead writeWrite : Int) (t u : CommandType) : Int :=
  if t.isWrite then if u.isWrite then writeWrite else writeRead
  else if u.isWrite then readWrite else readRead

/-- The delay between two bursts. -/
def burstDelay (t u : CommandType) (a b : BankId c) : Int :=
  if b.rank = a.rank then
    if b.bankgroup = a.bankgroup then
      burstPick c.readToReadL c.readToWrite c.writeToReadL c.writeToWriteL t u
    else burstPick c.readToReadS c.readToWrite c.writeToReadS c.writeToWriteS t u
  else burstPick c.readToReadO c.readToWriteO c.writeToReadO c.writeToWriteO t u

/-- The tables have the delay, unless the first burst closes the bank of the second. -/
theorem burstDelay_mem {t u : CommandType} {a b : BankId c} (ht : t.isReadWrite = true)
    (hu : u.isReadWrite = true) (hopen : a = b → t = .read ∨ t = .write) :
    (u, burstDelay t u a b) ∈ ChannelState.delaysOn t a b := by
  have hburst (readRead readWrite writeRead writeWrite : Int) :
      (u, burstPick readRead readWrite writeRead writeWrite t u) ∈
        if t.isWrite then Config.afterBurst writeRead writeWrite
        else Config.afterBurst readRead readWrite := by
    unfold burstPick
    rcases CommandType.isReadWrite_cases hu with rfl | rfl | rfl | rfl <;>
      cases t.isWrite <;> simp [Config.afterBurst, CommandType.isWrite]
  unfold ChannelState.delaysOn burstDelay
  rw [if_neg (by simp [CommandType.isRankCMD_of_isReadWrite ht])]
  split
  · split
    · have hpick := hburst c.readToReadL c.readToWrite c.writeToReadL c.writeToWriteL
      split
      · -- the same bank, which is still open
        have hab : a = b := by
          cases a
          cases b
          simp_all
        rcases hopen hab with rfl | rfl
        · exact List.mem_append_left _ hpick
        · exact List.mem_append_left _ hpick
      · rcases CommandType.isReadWrite_cases ht with rfl | rfl | rfl | rfl <;> exact hpick
    · have hpick := hburst c.readToReadS c.readToWrite c.writeToReadS c.writeToWriteS
      rcases CommandType.isReadWrite_cases ht with rfl | rfl | rfl | rfl <;> exact hpick
  · have hpick := hburst c.readToReadO c.readToWriteO c.writeToReadO c.writeToWriteO
    rcases CommandType.isReadWrite_cases ht with rfl | rfl | rfl | rfl <;> exact hpick

/-! ## Activation windows -/

/-- The cycles of the activations of a rank, the latest first. -/
def activations (rank : Fin c.ranks) (trace : List (Issued c)) : List Nat :=
  (trace.filter fun e => e.cmd.cmdType = .activate && e.cmd.bank.rank = rank).map Issued.clk

theorem windowReady_iff {size : Nat} {window : List Nat} {clk : Nat} :
    ChannelState.windowReady size window clk = true ↔ Admits size window clk := by
  cases window with
  | nil => simp [ChannelState.windowReady, Admits]
  | cons front rest =>
    simp only [ChannelState.windowReady, Admits, List.head?_cons, Option.mem_some, forall_eq']
    simp [imp_iff_not_or]

theorem windowPush_eq (window : List Nat) (clk : Nat) (delay : Int) :
    ChannelState.windowPush window clk delay = pushWindow (addDelay · delay) window clk := by
  cases window <;> rfl

/-- The windows of all ranks account for the activations of the trace. -/
structure Windowed (s : Controller c) : Prop where
  latest : ∀ e ∈ s.cmdTrace, e.clk ≤ s.clk
  four : ∀ rank, Tracks 4 (addDelay · c.timing.tFAW) (s.channelState.fourAw rank)
    (activations rank s.cmdTrace)
  thirtyTwo : c.protocol.isGDDR = true → ∀ rank, Tracks 32 (addDelay · c.timing.t32AW)
    (s.channelState.thirtyTwoAw rank) (activations rank s.cmdTrace)

theorem activations_cons_of_ne {e : Issued c} {rank : Fin c.ranks} {trace : List (Issued c)}
    (h : ¬ (e.cmd.cmdType = .activate ∧ e.cmd.bank.rank = rank)) :
    activations rank (e :: trace) = activations rank trace := by
  unfold activations
  rw [List.filter_cons_of_neg (by simpa using h)]

theorem activations_cons_self {e : Issued c} {trace : List (Issued c)}
    (h : e.cmd.cmdType = .activate) :
    activations e.cmd.bank.rank (e :: trace) = e.clk :: activations e.cmd.bank.rank trace := by
  unfold activations
  rw [List.filter_cons_of_pos (by simp [h])]
  rfl

namespace Windowed

variable {s s' : Controller c} {r : Command c}

theorem same (h : Windowed s) (hsame : SameDevice s s') : Windowed s' where
  latest e he := by
    rw [hsame.trace] at he
    exact (h.latest e he).trans hsame.clk
  four rank := by
    rw [hsame.trace, hsame.fourAw]
    exact h.four rank
  thirtyTwo hgddr rank := by
    rw [hsame.trace, hsame.thirtyTwoAw]
    exact h.thirtyTwo hgddr rank

theorem head_le (h : Windowed s) (rank : Fin c.ranks) :
    ∀ t ∈ (activations rank s.cmdTrace).head?, t ≤ s.clk := by
  intro t ht
  obtain ⟨e, he, rfl⟩ := List.mem_map.mp (List.mem_of_mem_head? ht)
  exact h.latest e (List.mem_of_mem_filter he)

/-- The windows of one kind after an activation that they admit. -/
theorem push {size : Nat} {delay : Int} {window : Fin c.ranks → List Nat} (h : Windowed s)
    (hsize : 0 < size)
    (hwindow : ∀ rank, Tracks size (addDelay · delay) (window rank) (activations rank s.cmdTrace))
    (hact : r.cmdType = .activate) (hadmits : Admits size (window r.bank.rank) s.clk)
    (rank : Fin c.ranks) :
    Tracks size (addDelay · delay)
      (Function.update window r.bank.rank
        (ChannelState.windowPush (window r.bank.rank) s.clk delay) rank)
      (activations rank (s.issued r).cmdTrace) := by
  have htrace : (s.issued r).cmdTrace = ⟨s.clk, r⟩ :: s.cmdTrace := rfl
  rw [htrace]
  by_cases hrank : rank = r.bank.rank
  · subst hrank
    rw [Function.update_self, windowPush_eq, activations_cons_self (e := ⟨s.clk, r⟩) hact]
    exact (hwindow _).push hsize hadmits (h.head_le _)
  · rw [Function.update_of_ne hrank, activations_cons_of_ne fun hr => hrank hr.2.symm]
    exact hwindow rank

/-- A command that is ready. -/
theorem issued (h : Windowed s) (hready : Ready s.channelState s.clk r) :
    Windowed (s.issued r) := by
  have hlatest : ∀ e ∈ (s.issued r).cmdTrace, e.clk ≤ s.clk := by
    intro e he
    rcases List.mem_cons.mp he with rfl | he
    · exact le_rfl
    · exact h.latest e he
  by_cases hact : r.cmdType = .activate
  · have hwindow := hready.window hact
    have hfour : Admits 4 (s.channelState.fourAw r.bank.rank) s.clk := by
      rw [← windowReady_iff]
      unfold ChannelState.activationWindowOk at hwindow
      split at hwindow
      · simp only [Bool.and_eq_true] at hwindow
        exact hwindow.1
      · exact hwindow
    refine ⟨hlatest, ?_, fun hgddr => ?_⟩
    · have hpush := h.push (by omega) h.four hact hfour
      simpa [Controller.issued, ChannelState.applied, ChannelState.windowsAfter, hact,
        ChannelState.updateActivationTimes] using hpush
    · have hthirtyTwo : Admits 32 (s.channelState.thirtyTwoAw r.bank.rank) s.clk := by
        rw [← windowReady_iff]
        simp only [ChannelState.activationWindowOk, hgddr, if_true, Bool.and_eq_true] at hwindow
        exact hwindow.2
      have hpush := h.push (by omega) (h.thirtyTwo hgddr) hact hthirtyTwo
      simpa [Controller.issued, ChannelState.applied, ChannelState.windowsAfter, hact,
        ChannelState.updateActivationTimes, hgddr] using hpush
  · have hacts : ∀ rank, activations rank (s.issued r).cmdTrace = activations rank s.cmdTrace :=
      fun rank => activations_cons_of_ne fun hr => hact hr.1
    have hstate : (s.issued r).channelState.fourAw = s.channelState.fourAw ∧
        (s.issued r).channelState.thirtyTwoAw = s.channelState.thirtyTwoAw := by
      simp [Controller.issued, ChannelState.applied, ChannelState.windowsAfter, hact]
    refine ⟨hlatest, fun rank => ?_, fun hgddr rank => ?_⟩
    · rw [hacts, hstate.1]
      exact h.four rank
    · rw [hacts, hstate.2]
      exact h.thirtyTwo hgddr rank

end Windowed

theorem windowed_invariant : DeviceInvariant (Windowed (c := c)) where
  init := ⟨by simp [init], fun _ => .nil, fun _ _ => .nil⟩
  same _ _ h hsame := h.same hsame
  issue _ _ h horigin _ := h.issued horigin.ready

/-- Of five activations of a rank in a row the last comes `tFAW` or more after the first, and with
the protocols that have the longer window, of thirty-three the last comes `t32AW` or more after the
first. -/
theorem activations_spaced {s : Controller c} (h : Run s) (rank : Fin c.ranks) (i first last : Nat)
    (hlast : (activations rank s.cmdTrace)[i]? = some last) :
    ((activations rank s.cmdTrace)[i + 4]? = some first →
        (first : Int) + c.timing.tFAW ≤ last) ∧
      (c.protocol.isGDDR = true → (activations rank s.cmdTrace)[i + 32]? = some first →
        (first : Int) + c.timing.t32AW ≤ last) := by
  have hwindowed := windowed_invariant.run h
  refine ⟨fun hfirst => ?_, fun hgddr hfirst => ?_⟩
  · have hspaced := (hwindowed.four rank).spaced i last first hlast hfirst
    have hdelay := le_addDelay first c.timing.tFAW
    omega
  · have hspaced := (hwindowed.thirtyTwo hgddr rank).spaced i last first hlast hfirst
    have hdelay := le_addDelay first c.timing.t32AW
    omega

/-- Reads of five banks. The fifth activation waits for the window. -/
theorem activations_spaced_five_banks : ∃ s : Controller .hbm2, ∃ rank, Run s ∧
    activations rank s.cmdTrace = [31, 15, 9, 5, 1] ∧ (1 : Int) + 30 ≤ 31 := by
  let rank : Fin Config.hbm2.ranks := ⟨0, Config.hbm2_ranks⟩
  obtain ⟨s, hs, hp⟩ := Reach.of_run step Free (init : Controller .hbm2)
    (.add 0 false :: .add 0x4000 false :: .add 0x8000 false :: .add 0xc000 false ::
      .add 0x10000 false :: List.replicate 36 .tick)
    (fun s => activations rank s.cmdTrace = [31, 15, 9, 5, 1]) (by decide +kernel)
  have hactivations := of_decide_eq_true hp
  have hspaced := activations_spaced hs rank 0 1 31 (by rw [hactivations]; rfl)
  exact ⟨s, rank, hs, hactivations, hspaced.1 (by rw [hactivations]; rfl)⟩

end NetSim.Memory
