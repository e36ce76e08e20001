import NetSim.Memory.TimingSafety

/-!
# The device behind a controller

An abstract device: each bank is idle, has an active row, or refreshes itself, and a command is
legal only in some of these states. A controller never issues a command that is illegal in the state
which the commands before it have left the device in, and its bank states are exactly that state
(`commands_legal`).
-/

namespace NetSim.Memory

open Common Library

variable {c : Config}

/-- The state of a bank of the device. -/
inductive RowState
  | idle
  | active (row : Int)
  | selfRefresh
deriving DecidableEq

/-- What a command does to a bank; an illegal command has no result. -/
def RowState.takes (r : Command c) : RowState → Option RowState
  | .active row =>
    match r.cmdType with
    | .read | .write => if row = r.row then some (.active row) else none
    | .readPrecharge | .writePrecharge => if row = r.row then some .idle else none
    | .precharge => some .idle
    | .activate | .refresh | .refreshBank | .srefEnter | .srefExit => none
  | .idle =>
    match r.cmdType with
    | .activate => some (.active r.row)
    | .refresh | .refreshBank => some .idle
    | .srefEnter => some .selfRefresh
    | .read | .write | .readPrecharge | .writePrecharge | .precharge | .srefExit => none
  | .selfRefresh => if r.cmdType = .srefExit then some .idle else none

/-- A burst needs its row, and keeps it or closes the bank. -/
theorem RowState.takes_burst {r : Command c} {x y : RowState} (h : x.takes r = some y)
    (hrw : r.cmdType.isReadWrite = true) :
    x = .active r.row ∧ (y = .idle ∨ r.cmdType = .read ∨ r.cmdType = .write) := by
  unfold RowState.takes at h
  rcases CommandType.isReadWrite_cases hrw with hr | hr | hr | hr <;>
    cases x <;> simp_all

/-- A bank gets an active row by `ACTIVATE`. -/
theorem RowState.takes_active {r : Command c} {x : RowState} {row : Int}
    (h : x.takes r = some (.active row)) : x = .active row ∨ r.cmdType = .activate := by
  unfold RowState.takes at h
  cases x <;> cases hr : r.cmdType <;> simp_all

/-- The banks of a channel. -/
abbrev Device (c : Config) := BankId c → RowState

/-- The device takes a command. -/
def Device.Takes (d : Device c) (r : Command c) (d' : Device c) : Prop :=
  ∀ b, if r.Touches b then (d b).takes r = some (d' b) else d' b = d b

/-- The device takes the commands of a trace, and is in the state `d` after them. -/
inductive Device.Executes : List (Issued c) → Device c → Prop
  | start : Executes [] fun _ => .idle
  | next {trace : List (Issued c)} {d d' : Device c} (e : Issued c) (prior : Executes trace d)
      (htakes : d.Takes e.cmd d') : Executes (e :: trace) d'

/-- The state of the bank that a controller believes in. -/
def BankState.rowState (x : BankState) : RowState :=
  match x.state with
  | .opened => .active x.openRow
  | .closed => .idle
  | .sref => .selfRefresh

/-- The device that a controller believes in. -/
def Controller.device (s : Controller c) : Device c := fun b =>
  (s.channelState.bankStates b).rowState

/-- `UpdateState` follows the device. -/
theorem BankState.rowState_after {x : BankState} {r : Command c} (h : x.Allows r) :
    x.rowState.takes r = some (x.after r).rowState := by
  unfold Allows at h
  unfold rowState RowState.takes after
  cases hr : r.cmdType <;> simp only [hr] at h ⊢ <;> simp [h]

theorem BankState.rowState_updateTimings (x : BankState) (delays : List (CommandType × Int))
    (clk : Nat) : (x.updateTimings delays clk).rowState = x.rowState := by
  unfold rowState
  rw [updateTimings_state, updateTimings_openRow]

/-- The device follows a command that is issued. -/
theorem Controller.device_issued {s : Controller c} {r : Command c}
    (hready : Ready s.channelState s.clk r) (hissue : Issuable s r) :
    s.device.Takes r (s.issued r).device := by
  intro b
  have hafter : (s.issued r).device b =
      (if r.Touches b then (s.channelState.bankStates b).after r
        else s.channelState.bankStates b).rowState :=
    BankState.rowState_updateTimings _ _ _
  rw [hafter]
  split
  · rename_i htouches
    obtain ⟨x, hx⟩ := hissue.banks b htouches
    refine BankState.rowState_after (BankState.state_of_updateState hx fun hrw => ?_)
    -- a read or a write touches the bank that it concerns
    have hbank : b = r.bank :=
      (ChannelState.touches_iff_of_bank (CommandType.isRankCMD_of_isReadWrite hrw)).mp htouches
    have hallows := hready.allows r.bank r.concerns_bank
    rw [hbank]
    unfold BankState.Allows at hallows
    revert hrw hallows
    cases r.cmdType <;> simp [CommandType.isReadWrite, CommandType.isRead, CommandType.isWrite]
  · rfl

theorem executes_invariant :
    Controller.DeviceInvariant fun s : Controller c => Device.Executes s.cmdTrace s.device where
  init := .start
  same s s' h hsame := by
    have hdevice : s'.device = s.device := by
      unfold Controller.device
      rw [hsame.bankStates]
    rw [hsame.trace, hdevice]
    exact h
  issue s r h horigin hissue :=
    .next ⟨s.clk, r⟩ h (Controller.device_issued horigin.ready hissue)

/-- The device takes every command of a run, and the bank states of the controller are its state. -/
theorem commands_legal {s : Controller c} (h : Controller.Run s) :
    Device.Executes s.cmdTrace s.device :=
  executes_invariant.run h

theorem commands_legal_two_reads : ∃ s : Controller .hbm2, Controller.Run s ∧
    s.cmdTrace.length = 3 ∧ Device.Executes s.cmdTrace s.device := by
  obtain ⟨s, hs, htrace⟩ := Controller.run_two_reads
  refine ⟨s, hs, ?_, commands_legal hs⟩
  rw [← List.length_map, htrace]
  rfl

end NetSim.Memory
