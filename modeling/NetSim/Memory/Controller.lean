import NetSim.Memory.CommandQueue

/-!
# The controller of a channel

`Controller` of `DRAMsim3-master/src/controller.h` and `DRAMsim3-master/src/controller.cc`, without
its statistics. The command trace, which the source writes under `CMD_TRACE`, is kept with the
latest command first. A `std::multimap` of transactions is the list of its values in the order of
their insertion, which is the order among equal keys.
-/

namespace NetSim.Memory

open Common

/-- An entry of the command trace. -/
structure Issued (c : Config) where
  clk : Nat
  cmd : Command c

/-- `Controller` -/
structure Controller (c : Config) where
  clk : Nat
  channelState : ChannelState c
  cmdQueue : CommandQueue c
  refresh : Refresh c
  unifiedQueue : List Transaction
  readQueue : List Transaction
  writeBuffer : List Transaction
  pendingRdQ : List Transaction
  pendingWrQ : List Transaction
  returnQueue : List Transaction
  writeDraining : Int
  cmdTrace : List (Issued c)

/-- `count` of a multimap -/
def countAddr (a : Addr) (ts : List Transaction) : Nat := ts.countP fun t => t.addr = a

namespace Controller

variable {c : Config}

def init : Controller c where
  clk := 0
  channelState := .init
  cmdQueue := .init
  refresh := .init
  unifiedQueue := []
  readQueue := []
  writeBuffer := []
  pendingRdQ := []
  pendingWrQ := []
  returnQueue := []
  writeDraining := 0
  cmdTrace := []

variable (s : Controller c)

/-- `Controller::ReturnDoneTrans` -/
def returnDoneTrans (clk : Nat) : Option (Transaction × Controller c) :=
  match s.returnQueue.find? fun t => t.completeCycle ≤ clk with
  | none => none
  | some t =>
    some (t, { s with returnQueue := s.returnQueue.eraseP fun t => t.completeCycle ≤ clk })

/-- `Controller::WillAcceptTransaction`; the capacity is what the constructor reserves. -/
def willAcceptTransaction (isWrite : Bool) : Bool :=
  if c.unifiedQueue then s.unifiedQueue.length < c.transQueueSize
  else if !isWrite then s.readQueue.length < c.transQueueSize
  else s.writeBuffer.length < c.transQueueSize

/-- Push a transaction on the queue for it. -/
def enqueue (t : Transaction) : Controller c :=
  if c.unifiedQueue then { s with unifiedQueue := s.unifiedQueue ++ [t] }
  else if t.isWrite then { s with writeBuffer := s.writeBuffer ++ [t] }
  else { s with readQueue := s.readQueue ++ [t] }

/-- `Controller::AddTransaction` -/
def addTransaction (addr : Addr) (isWrite : Bool) : Controller c :=
  let t : Transaction := ⟨addr, s.clk, 0, isWrite⟩
  let done := { t with completeCycle := s.clk + 1 }
  if isWrite then
    let s :=
      if countAddr addr s.pendingWrQ = 0 then
        enqueue { s with pendingWrQ := s.pendingWrQ ++ [t] } t
      else s
    { s with returnQueue := s.returnQueue ++ [done] }
  else if 0 < countAddr addr s.pendingWrQ then
    { s with returnQueue := s.returnQueue ++ [done] }
  else
    let s := { s with pendingRdQ := s.pendingRdQ ++ [t] }
    if countAddr addr s.pendingRdQ = 1 then s.enqueue t else s

/-- `Controller::TransToCommand` -/
def transToCommand (addr : Addr) (isWrite : Bool) : Command c :=
  let t := c.addressMapping addr
  let cmdType : CommandType :=
    match c.rowBufPolicy with
    | .openPage => if isWrite then .write else .read
    | .closePage => if isWrite then .writePrecharge else .readPrecharge
  ⟨cmdType, t.bank, t.row, t.column, addr⟩

/-- The queue that `ScheduleTransaction` takes a transaction from. -/
inductive Source
  | unified
  | write
  | read
deriving DecidableEq

def queue : Source → List Transaction
  | .unified => s.unifiedQueue
  | .write => s.writeBuffer
  | .read => s.readQueue

def setQueue (ts : List Transaction) : Source → Controller c
  | .unified => { s with unifiedQueue := ts }
  | .write => { s with writeBuffer := ts }
  | .read => { s with readQueue := ts }

/-- The beginning of `ScheduleTransaction`: whether to start to drain the write buffer. -/
def startDraining : Controller c :=
  if s.writeDraining = 0 ∧ c.unifiedQueue = false ∧
      (c.transQueueSize ≤ s.writeBuffer.length ∨
        8 < s.writeBuffer.length ∧ s.cmdQueue.queueEmpty) then
    { s with writeDraining := s.writeBuffer.length }
  else s

def source : Source :=
  if c.unifiedQueue then .unified else if 0 < s.writeDraining then .write else .read

/-- The loop of `ScheduleTransaction`, with the transactions that were passed. -/
def scheduleFrom (src : Source) (before : List Transaction) : List Transaction → Controller c
  | [] => s
  | t :: after =>
    let cmd : Command c := transToCommand t.addr t.isWrite
    if s.cmdQueue.willAcceptCommand cmd.bank then
      if c.unifiedQueue = false ∧ cmd.cmdType.isWrite then
        -- the write waits for the reads of its address
        if 0 < countAddr t.addr s.pendingRdQ then { s with writeDraining := 0 }
        else
          let s := { s with writeDraining := s.writeDraining - 1 }
          { s with cmdQueue := (s.cmdQueue.addCommand cmd).2 }.setQueue (before ++ after) src
      else { s with cmdQueue := (s.cmdQueue.addCommand cmd).2 }.setQueue (before ++ after) src
    else scheduleFrom src (before ++ [t]) after

/-- `Controller::ScheduleTransaction` -/
def scheduleTransaction : Controller c :=
  let s := s.startDraining
  s.scheduleFrom s.source [] (s.queue s.source)

/-- The part of `IssueCommand` that updates the pending transactions. -/
def updatePending (cmd : Command c) : Except Exit (Controller c) :=
  let same : Transaction → Bool := fun t => t.addr = cmd.hexAddr
  if cmd.cmdType.isRead then
    if countAddr cmd.hexAddr s.pendingRdQ = 0 then .error .notInReadQueue
    else .ok { s with
      returnQueue := s.returnQueue ++ (s.pendingRdQ.filter same).map fun t =>
        { t with completeCycle := addDelay s.clk c.readDelay }
      pendingRdQ := s.pendingRdQ.filter fun t => !same t }
  else if cmd.cmdType.isWrite then
    if countAddr cmd.hexAddr s.pendingWrQ = 0 then .error .notInWriteQueue
    else .ok { s with pendingWrQ := s.pendingWrQ.eraseP same }
  else .ok s

/-- `Controller::IssueCommand` -/
def issueCommand (cmd : Command c) : Except Exit (Controller c) :=
  let s := { s with cmdTrace := ⟨s.clk, cmd⟩ :: s.cmdTrace }
  match s.updatePending cmd with
  | .error e => .error e
  | .ok s =>
    match s.channelState.updateTimingAndStates cmd s.clk with
    | .error e => .error e
    | .ok channelState => .ok { s with channelState }

/-- `cmd_queue_.GetCommandToIssue()` -/
def takeCommand : Except Exit (Option (Command c) × Controller c) :=
  match s.cmdQueue.getCommandToIssue s.channelState with
  | .error e => .error e
  | .ok (cmd, cmdQueue) => .ok (cmd, { s with cmdQueue })

/-- The choice of the first command of a cycle. -/
def firstCommand : Except Exit (Option (Command c) × Controller c) :=
  match s.channelState.refreshQ with
  | [] => s.takeCommand
  | ref :: _ =>
    match s.cmdQueue.finishRefresh s.channelState ref with
    | .error e => .error e
    | .ok (some cmd, cmdQueue) => .ok (some cmd, { s with cmdQueue })
    | .ok (none, cmdQueue) => { s with cmdQueue }.takeCommand

/-- The second command of a cycle. When both commands are reads or writes the second one has left
its queue and is not issued. -/
def secondCommand (first : Command c) : Except Exit (Controller c) :=
  match s.takeCommand with
  | .error e => .error e
  | .ok (none, s) => .ok s
  | .ok (some second, s) =>
    if second.cmdType.isReadWrite ≠ first.cmdType.isReadWrite then s.issueCommand second else .ok s

/-- The commands of a cycle, and whether there are any. -/
def issueCommands : Except Exit (Bool × Controller c) :=
  match s.firstCommand with
  | .error e => .error e
  | .ok (none, s) => .ok (false, s)
  | .ok (some cmd, s) =>
    match s.issueCommand cmd with
    | .error e => .error e
    | .ok s =>
      if c.enableHbmDualCmd then
        match s.secondCommand cmd with
        | .error e => .error e
        | .ok s => .ok (true, s)
      else .ok (true, s)

/-- The first loop over the ranks: count the idle cycles. -/
def countIdleCycles : Controller c :=
  { s with channelState := { s.channelState with
      rankIdleCycles := fun i =>
        if s.channelState.rankIsSref i then s.channelState.rankIdleCycles i
        else if s.channelState.isAllBankIdleInRank i then s.channelState.rankIdleCycles i + 1
        else 0 } }

/-- The command that the second loop over the ranks tries for the rank `i`. -/
def selfRefreshCommand (i : Fin c.ranks) : Option (Command c) :=
  if s.channelState.rankIsSref i then
    if s.cmdQueue.rankQEmpty i then none else some (bareCommand .srefExit (firstBank c i))
  else if s.cmdQueue.rankQEmpty i ∧ c.srefThreshold ≤ s.channelState.rankIdleCycles i then
    some (bareCommand .srefEnter (firstBank c i))
  else none

/-- The second loop over the ranks: self refresh of idle ranks. -/
def selfRefreshFrom : List (Fin c.ranks) → Except Exit (Controller c)
  | [] => .ok s
  | i :: is =>
    match s.selfRefreshCommand i with
    | none => selfRefreshFrom is
    | some cmd =>
      match s.channelState.getReadyCommand cmd s.clk with
      | .error e => .error e
      | .ok none => selfRefreshFrom is
      | .ok (some ready) => s.issueCommand ready

/-- `Controller::ClockTick` -/
def clockTick : Except Exit (Controller c) :=
  let (refresh, channelState) := s.refresh.clockTick s.channelState
  match issueCommands { s with refresh, channelState } with
  | .error e => .error e
  | .ok (cmdIssued, s) =>
    let s := s.countIdleCycles
    match (if c.enableSelfRefresh && !cmdIssued then s.selfRefreshFrom (List.finRange c.ranks)
      else .ok s : Except Exit (Controller c)) with
    | .error e => .error e
    | .ok s =>
      let s := s.scheduleTransaction
      .ok { s with clk := s.clk + 1, cmdQueue := s.cmdQueue.clockTick }

end Controller

end NetSim.Memory
