import NetSim.Memory.BankState

/-!
# The state of a channel

`ChannelState` and `Refresh` of `DRAMsim3-master/src/channel_state.cc` and
`DRAMsim3-master/src/refresh.cc`. A loop that updates the timing of a group of banks, each of them
on its own, is the update of all banks of the group.
-/

namespace NetSim.Memory

/-- `ChannelState` -/
structure ChannelState (c : Config) where
  rankIdleCycles : Fin c.ranks → Nat
  rankIsSref : Fin c.ranks → Bool
  bankStates : BankId c → BankState
  refreshQ : List (Command c)
  fourAw : Fin c.ranks → List Nat
  thirtyTwoAw : Fin c.ranks → List Nat

/-- The banks of a rank, in the order of the loops over bankgroups and banks. -/
def banksOf (c : Config) (rank : Fin c.ranks) : List (BankId c) :=
  (List.finRange c.bankgroups).flatMap fun j =>
    (List.finRange c.banksPerGroup).map fun k => ⟨rank, j, k⟩

/-- The bank that stands for a rank. -/
def firstBank (c : Config) (rank : Fin c.ranks) : BankId c :=
  ⟨rank, ⟨0, c.bankgroups_pos⟩, ⟨0, c.banksPerGroup_pos⟩⟩

/-- A command to a rank or to a bank that is not about an address: `hex_addr` is -1. -/
def bareCommand {c : Config} (t : CommandType) (bank : BankId c) : Command c :=
  ⟨t, bank, -1, -1, BitVec.allOnes 64⟩

namespace ChannelState

variable {c : Config}

def init : ChannelState c where
  rankIdleCycles _ := 0
  rankIsSref _ := false
  bankStates _ := .init
  refreshQ := []
  fourAw _ := []
  thirtyTwoAw _ := []

variable (s : ChannelState c)

def isAllBankIdleInRank (rank : Fin c.ranks) : Bool :=
  (banksOf c rank).all fun b => !(s.bankStates b).isRowOpen

def isRefreshWaiting : Bool := !s.refreshQ.isEmpty

/-- `BankNeedRefresh(.., true)` and `RankNeedRefresh(.., true)` -/
def bankNeedRefresh (bank : BankId c) : ChannelState c :=
  { s with refreshQ := s.refreshQ ++ [bareCommand .refreshBank bank] }

def rankNeedRefresh (rank : Fin c.ranks) : ChannelState c :=
  { s with refreshQ := s.refreshQ ++ [bareCommand .refresh (firstBank c rank)] }

/-- `BankNeedRefresh(.., false)` and `RankNeedRefresh(.., false)` -/
def bankRefreshed (bank : BankId c) : ChannelState c :=
  { s with refreshQ := s.refreshQ.eraseP fun cmd => cmd.bank = bank }

def rankRefreshed (rank : Fin c.ranks) : ChannelState c :=
  { s with refreshQ := s.refreshQ.eraseP fun cmd => cmd.bank.rank = rank }

/-! ## Activation windows -/

/-- `IsFAWReady` and `Is32AWReady`, over a window of `size` activations. -/
def windowReady (size : Nat) (window : List Nat) (currTime : Nat) : Bool :=
  match window with
  | [] => true
  | front :: _ => !(currTime < front && size ≤ window.length)

def isFAWReady (rank : Fin c.ranks) (currTime : Nat) : Bool :=
  windowReady 4 (s.fourAw rank) currTime

def is32AWReady (rank : Fin c.ranks) (currTime : Nat) : Bool :=
  windowReady 32 (s.thirtyTwoAw rank) currTime

/-- `ActivationWindowOk` -/
def activationWindowOk (rank : Fin c.ranks) (currTime : Nat) : Bool :=
  if c.protocol.isGDDR then s.isFAWReady rank currTime && s.is32AWReady rank currTime
  else s.isFAWReady rank currTime

/-- One of the two windows of `UpdateActivationTimes` -/
def windowPush (window : List Nat) (currTime : Nat) (delay : Int) : List Nat :=
  (match window with
    | [] => []
    | front :: rest => if front ≤ currTime then rest else window) ++ [addDelay currTime delay]

/-- `UpdateActivationTimes` -/
def updateActivationTimes (rank : Fin c.ranks) (currTime : Nat) : ChannelState c :=
  { s with
    fourAw := Function.update s.fourAw rank (windowPush (s.fourAw rank) currTime c.timing.tFAW)
    thirtyTwoAw :=
      if c.protocol.isGDDR then
        Function.update s.thirtyTwoAw rank
          (windowPush (s.thirtyTwoAw rank) currTime c.timing.t32AW)
      else s.thirtyTwoAw }

/-! ## Ready commands -/

/-- The loops of `GetReadyCommand` over the banks of a rank: `last` is the answer of the latest
bank. -/
def readyInRank (cmd : Command c) (clk : Nat) :
    List (BankId c) → Nat → Option (Command c) → Except Exit (Option (Command c))
  | [], numReady, last => .ok (if numReady = c.banks then last else none)
  | b :: bs, numReady, _ =>
    match (s.bankStates b).getReadyCommand cmd clk with
    | .error e => .error e
    | .ok none => readyInRank cmd clk bs numReady none
    | .ok (some ready) =>
      if ready.cmdType ≠ cmd.cmdType then
        .ok (some { ready with bank := b, row := -1, column := -1 })
      else readyInRank cmd clk bs (numReady + 1) (some ready)

/-- `ChannelState::GetReadyCommand` -/
def getReadyCommand (cmd : Command c) (clk : Nat) : Except Exit (Option (Command c)) :=
  if cmd.cmdType.isRankCMD then s.readyInRank cmd clk (banksOf c cmd.bank.rank) 0 none
  else
    match (s.bankStates cmd.bank).getReadyCommand cmd clk with
    | .error e => .error e
    | .ok none => .ok none
    | .ok (some ready) =>
      if ready.cmdType = .activate ∧ s.activationWindowOk ready.bank.rank clk = false then .ok none
      else .ok (some ready)

/-! ## Updates -/

/-- `BankState::UpdateState` of one bank. -/
def updateBank (cmd : Command c) (s : ChannelState c) (b : BankId c) :
    Except Exit (ChannelState c) :=
  match (s.bankStates b).updateState cmd with
  | .error e => .error e
  | .ok x => .ok { s with bankStates := Function.update s.bankStates b x }

/-- What `UpdateState` does after the banks: for a command to a rank, and for one to a bank. -/
def rankUpdated (cmd : Command c) : ChannelState c :=
  if cmd.cmdType.isRefresh then s.rankRefreshed cmd.bank.rank
  else if cmd.cmdType = .srefEnter then
    { s with rankIsSref := Function.update s.rankIsSref cmd.bank.rank true }
  else { s with rankIsSref := Function.update s.rankIsSref cmd.bank.rank false }

def bankUpdated (cmd : Command c) : ChannelState c :=
  if cmd.cmdType.isRefresh then s.bankRefreshed cmd.bank else s

/-- `ChannelState::UpdateState` -/
def updateState (cmd : Command c) : Except Exit (ChannelState c) :=
  if cmd.cmdType.isRankCMD then
    match (banksOf c cmd.bank.rank).foldlM (updateBank cmd) s with
    | .error e => .error e
    | .ok s => .ok (s.rankUpdated cmd)
  else
    match updateBank cmd s cmd.bank with
    | .error e => .error e
    | .ok s => .ok (s.bankUpdated cmd)

/-- The delays that a command to the bank `a` imposes on the bank `b`. -/
def delaysOn (t : CommandType) (a b : BankId c) : List (CommandType × Int) :=
  if t.isRankCMD then if b.rank = a.rank then c.sameRank t else []
  else if b.rank = a.rank then
    if b.bankgroup = a.bankgroup then
      if b.bank = a.bank then c.sameBank t else c.otherBanksSameBankgroup t
    else c.otherBankgroupsSameRank t
  else c.otherRanks t

/-- `ChannelState::UpdateTiming` -/
def updateTiming (cmd : Command c) (clk : Nat) : ChannelState c :=
  let s := if cmd.cmdType = .activate then s.updateActivationTimes cmd.bank.rank clk else s
  { s with bankStates := fun b =>
      (s.bankStates b).updateTimings (delaysOn cmd.cmdType cmd.bank b) clk }

/-- `UpdateTimingAndStates` -/
def updateTimingAndStates (cmd : Command c) (clk : Nat) : Except Exit (ChannelState c) :=
  match s.updateState cmd with
  | .error e => .error e
  | .ok s => .ok (s.updateTiming cmd clk)

end ChannelState

/-! ## Refresh -/

/-- `Refresh` -/
structure Refresh (c : Config) where
  clk : Nat
  nextRank : Fin c.ranks
  nextBg : Fin c.bankgroups
  nextBank : Fin c.banksPerGroup

/-- `(i + 1) % n` -/
def cyclicSucc {n : Nat} (i : Fin n) : Fin n := ⟨(i.val + 1) % n, Nat.mod_lt _ i.pos⟩

namespace Refresh

variable {c : Config}

def init : Refresh c := ⟨0, ⟨0, c.ranks_pos⟩, ⟨0, c.bankgroups_pos⟩, ⟨0, c.banksPerGroup_pos⟩⟩

/-- `Refresh::IterateNext` -/
def iterateNext (r : Refresh c) : Refresh c :=
  match c.refreshPolicy with
  -- not called under this policy
  | .rankLevelSimultaneous => r
  | .rankLevelStaggered => { r with nextRank := cyclicSucc r.nextRank }
  | .bankLevelStaggered =>
    let r := { r with nextBg := cyclicSucc r.nextBg }
    if r.nextBg.val = 0 then
      let r := { r with nextBank := cyclicSucc r.nextBank }
      if r.nextBank.val = 0 then { r with nextRank := cyclicSucc r.nextRank } else r
    else r

/-- `Refresh::InsertRefresh` -/
def insertRefresh (r : Refresh c) (s : ChannelState c) : Refresh c × ChannelState c :=
  match c.refreshPolicy with
  | .rankLevelSimultaneous =>
    match (List.finRange c.ranks).find? fun i => !s.rankIsSref i with
    | some i => (r, s.rankNeedRefresh i)
    | none => (r, s)
  | .rankLevelStaggered =>
    (r.iterateNext, if s.rankIsSref r.nextRank then s else s.rankNeedRefresh r.nextRank)
  | .bankLevelStaggered =>
    (r.iterateNext,
      if s.rankIsSref r.nextRank then s else s.bankNeedRefresh ⟨r.nextRank, r.nextBg, r.nextBank⟩)

/-- `Refresh::ClockTick` -/
def clockTick (r : Refresh c) (s : ChannelState c) : Refresh c × ChannelState c :=
  let interval := (refreshInterval c.refreshPolicy c.ranks c.timing).toNat
  let (r, s) := if r.clk % interval = 0 ∧ 0 < r.clk then r.insertRefresh s else (r, s)
  ({ r with clk := r.clk + 1 }, s)

end Refresh

end NetSim.Memory
