import NetSim.Memory.ChannelState

/-!
# The command queues

`CommandQueue` of `DRAMsim3-master/src/command_queue.h` and
`DRAMsim3-master/src/command_queue.cc`: one queue for each rank or for each bank. The queues are
served in turn, and the first command of a queue that is ready is issued, or the command that it
needs first. A waiting refresh blocks the queues that it concerns.
-/

namespace NetSim.Memory

namespace Config

variable (c : Config)

/-- `num_queues_` -/
def numQueues : Nat :=
  match c.queueStructure with
  | .perBank => c.banks * c.ranks
  | .perRank => c.ranks

variable {c} in
/-- `CommandQueue::GetQueueIndex` -/
def getQueueIndex (b : BankId c) : Nat :=
  match c.queueStructure with
  | .perRank => b.rank
  | .perBank => b.rank * c.banks + b.bankgroup * c.banksPerGroup + b.bank

end Config

open Config

/-- `CommandQueue`; the queues are those with an index below `num_queues_`. -/
structure CommandQueue (c : Config) where
  rankQEmpty : Fin c.ranks → Bool
  queues : Nat → List (Command c)
  refQIndices : Finset Nat
  isInRef : Bool
  queueIdx : Nat
  clk : Nat

namespace CommandQueue

variable {c : Config}

def init : CommandQueue c where
  rankQEmpty _ := true
  queues _ := []
  refQIndices := ∅
  isInRef := false
  queueIdx := 0
  clk := 0

variable (q : CommandQueue c)

def willAcceptCommand (b : BankId c) : Bool :=
  (q.queues (getQueueIndex b)).length < c.cmdQueueSize

def queueEmpty : Bool := (List.range c.numQueues).all fun i => (q.queues i).isEmpty

def queueUsage : Nat := ((List.range c.numQueues).map fun i => (q.queues i).length).sum

/-- `CommandQueue::AddCommand` -/
def addCommand (cmd : Command c) : Bool × CommandQueue c :=
  let i := getQueueIndex cmd.bank
  if (q.queues i).length < c.cmdQueueSize then
    (true, { q with
      queues := Function.update q.queues i (q.queues i ++ [cmd])
      rankQEmpty := Function.update q.rankQEmpty cmd.bank.rank false })
  else (false, q)

/-- `CommandQueue::GetNextQueue`, up to the reference that it returns. -/
def getNextQueue : CommandQueue c :=
  let i := q.queueIdx + 1
  { q with queueIdx := if i = c.numQueues then 0 else i }

/-- `CommandQueue::GetRefQIndices` -/
def getRefQIndices (ref : Command c) : CommandQueue c :=
  let indices : Finset Nat :=
    if ref.cmdType = .refresh then
      match c.queueStructure with
      | .perBank => (Finset.range c.numQueues).filter fun i => i / c.banks = ref.bank.rank
      | .perRank => {ref.bank.rank.val}
    else {getQueueIndex ref.bank}
  { q with refQIndices := q.refQIndices ∪ indices }

/-- `CommandQueue::EraseRWCommand` -/
def eraseRWCommand (cmd : Command c) : Except Exit (CommandQueue c) :=
  let i := getQueueIndex cmd.bank
  let same : Command c → Bool := fun x => cmd.hexAddr = x.hexAddr && cmd.cmdType = x.cmdType
  if (q.queues i).any same then
    .ok { q with queues := Function.update q.queues i ((q.queues i).eraseP same) }
  else .error .cannotFindCmd

/-- `CommandQueue::ArbitratePrecharge` for the command `cmd`, which stands between `before` and
`after` in its queue. -/
def arbitratePrecharge (s : ChannelState c) (before : List (Command c)) (cmd : Command c)
    (after : List (Command c)) : Bool :=
  if before.any fun prev => prev.bank = cmd.bank then false
  else
    let bank := s.bankStates cmd.bank
    let pendingRowHitsExist :=
      (cmd :: after).any fun next => next.row = bank.openRow && next.bank = cmd.bank
    let rowhitLimitReached := 4 ≤ bank.rowHitCount
    !pendingRowHitsExist || rowhitLimitReached

/-- `CommandQueue::HasRWDependency`; the rank is not compared. -/
def hasRWDependency (before : List (Command c)) (cmd : Command c) : Bool :=
  before.any fun x => x.cmdType.isRead && x.row = cmd.row && x.column = cmd.column &&
    x.bank.bank = cmd.bank.bank && x.bank.bankgroup = cmd.bank.bankgroup

/-- The tests of `GetFirstReadyInQueue` on a command that is ready. -/
def mayIssue (s : ChannelState c) (before : List (Command c)) (cmd : Command c)
    (after : List (Command c)) (ready : Command c) : Bool :=
  if ready.cmdType = .precharge then arbitratePrecharge s before cmd after
  else if ready.cmdType.isWrite then !hasRWDependency before cmd
  else true

/-- The loop of `CommandQueue::GetFirstReadyInQueue`, with the commands that were passed. -/
def firstReadyFrom (s : ChannelState c) (clk : Nat) (before : List (Command c)) :
    List (Command c) → Except Exit (Option (Command c))
  | [] => .ok none
  | cmd :: after =>
    match s.getReadyCommand cmd clk with
    | .error e => .error e
    | .ok none => firstReadyFrom s clk (before ++ [cmd]) after
    | .ok (some ready) =>
      if mayIssue s before cmd after ready then .ok (some ready)
      else firstReadyFrom s clk (before ++ [cmd]) after

/-- `CommandQueue::GetFirstReadyInQueue` -/
def getFirstReadyInQueue (s : ChannelState c) (queue : List (Command c)) :
    Except Exit (Option (Command c)) :=
  firstReadyFrom s q.clk [] queue

/-- `fuel` more turns of the loop of `CommandQueue::GetCommandToIssue`. -/
def issueFrom (s : ChannelState c) :
    Nat → CommandQueue c → Except Exit (Option (Command c) × CommandQueue c)
  | 0, q => .ok (none, q)
  | fuel + 1, q =>
    let q := q.getNextQueue
    if q.isInRef = true ∧ q.queueIdx ∈ q.refQIndices then issueFrom s fuel q
    else
      match q.getFirstReadyInQueue s (q.queues q.queueIdx) with
      | .error e => .error e
      | .ok none => issueFrom s fuel q
      | .ok (some cmd) =>
        if cmd.cmdType.isReadWrite then
          match q.eraseRWCommand cmd with
          | .error e => .error e
          | .ok q => .ok (some cmd, q)
        else .ok (some cmd, q)

/-- `CommandQueue::GetCommandToIssue` -/
def getCommandToIssue (s : ChannelState c) : Except Exit (Option (Command c) × CommandQueue c) :=
  issueFrom s c.numQueues q

/-- `CommandQueue::FinishRefresh` for the refresh `ref` at the front of its queue. -/
def finishRefresh (s : ChannelState c) (ref : Command c) :
    Except Exit (Option (Command c) × CommandQueue c) :=
  let q := if q.isInRef then q else { q.getRefQIndices ref with isInRef := true }
  match s.getReadyCommand ref q.clk with
  | .error e => .error e
  | .ok none => .ok (none, q)
  | .ok (some cmd) =>
    if cmd.cmdType.isRefresh then .ok (some cmd, { q with refQIndices := ∅, isInRef := false })
    else .ok (some cmd, q)

/-- `CommandQueue::ClockTick` -/
def clockTick : CommandQueue c := { q with clk := q.clk + 1 }

end CommandQueue

end NetSim.Memory
