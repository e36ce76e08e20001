import NetSim.Memory.Command

/-!
# The state of a bank

`BankState` of `DRAMsim3-master/src/bankstate.h` and `DRAMsim3-master/src/bankstate.cc`. The states
`PD` and `SIZE` are never entered.
-/

namespace NetSim.Memory

/-- `BankState::State` -/
inductive State
  | opened
  | closed
  | sref
deriving DecidableEq, Repr

structure BankState where
  state : State
  /-- The earliest cycle at which a command can be issued. -/
  cmdTiming : CommandType → Nat
  openRow : Int
  rowHitCount : Nat

namespace BankState

def init : BankState := ⟨.closed, fun _ => 0, -1, 0⟩

variable {c : Config} (b : BankState)

def isRowOpen : Bool := b.state = .opened

/-- The command that has to be issued first for `cmd`. -/
def requiredType (cmd : Command c) : Except Exit CommandType :=
  match b.state with
  | .closed =>
    match cmd.cmdType with
    | .read | .readPrecharge | .write | .writePrecharge => .ok .activate
    | .refresh | .refreshBank | .srefEnter => .ok cmd.cmdType
    | .activate | .precharge | .srefExit => .error .abruptExit
  | .opened =>
    match cmd.cmdType with
    | .read | .readPrecharge | .write | .writePrecharge =>
      .ok (if cmd.row = b.openRow then cmd.cmdType else .precharge)
    | .refresh | .refreshBank | .srefEnter => .ok .precharge
    | .activate | .precharge | .srefExit => .error .abruptExit
  | .sref =>
    match cmd.cmdType with
    | .read | .readPrecharge | .write | .writePrecharge => .ok .srefExit
    | .refresh | .refreshBank | .srefEnter | .activate | .precharge | .srefExit =>
      .error .abruptExit

/-- `BankState::GetReadyCommand` -/
def getReadyCommand (cmd : Command c) (clk : Nat) : Except Exit (Option (Command c)) :=
  match b.requiredType cmd with
  | .error e => .error e
  | .ok required =>
    if b.cmdTiming required ≤ clk then .ok (some { cmd with cmdType := required }) else .ok none

/-- `BankState::UpdateState` -/
def updateState (cmd : Command c) : Except Exit BankState :=
  match b.state with
  | .opened =>
    match cmd.cmdType with
    | .read | .write => .ok { b with rowHitCount := b.rowHitCount + 1 }
    | .readPrecharge | .writePrecharge | .precharge =>
      .ok { b with state := .closed, openRow := -1, rowHitCount := 0 }
    | .activate | .refresh | .refreshBank | .srefEnter | .srefExit => .error .abruptExit
  | .closed =>
    match cmd.cmdType with
    | .refresh | .refreshBank => .ok b
    | .activate => .ok { b with state := .opened, openRow := cmd.row }
    | .srefEnter => .ok { b with state := .sref }
    | .read | .write | .readPrecharge | .writePrecharge | .precharge | .srefExit =>
      .error .abruptExit
  | .sref =>
    match cmd.cmdType with
    | .srefExit => .ok { b with state := .closed }
    | .read | .write | .readPrecharge | .writePrecharge | .activate | .precharge | .refresh
    | .refreshBank | .srefEnter => .error .abruptExit

/-- `BankState::UpdateTiming` -/
def updateTiming (t : CommandType) (time : Nat) : BankState :=
  { b with cmdTiming := Function.update b.cmdTiming t (max (b.cmdTiming t) time) }

/-- The loop over a list of delays. -/
def updateTimings (delays : List (CommandType × Int)) (clk : Nat) : BankState :=
  delays.foldl (fun b d => b.updateTiming d.1 (addDelay clk d.2)) b

end BankState

end NetSim.Memory
