import NetSim.Memory.Mapping

/-!
# Commands and their timing

`Command` and `Transaction` of `DRAMsim3-master/src/common.h`, and the tables of
`DRAMsim3-master/src/timing.cc`: how many cycles after a command another one may be issued to the
same bank, to the other banks of its bankgroup, to the other bankgroups of its rank, to the other
ranks, and, after a command to a rank, to all banks of the rank.

A command that is not valid (`CommandType::SIZE`) is `none`. Where the source writes -1 for the
bankgroup and the bank of a command to a rank, the model has the first bank of the rank; these
components are not read.
-/

namespace NetSim.Memory

open Common

inductive CommandType
  | read
  | readPrecharge
  | write
  | writePrecharge
  | activate
  | precharge
  | refreshBank
  | refresh
  | srefEnter
  | srefExit
deriving DecidableEq, Repr

structure Command (c : Config) where
  cmdType : CommandType
  bank : BankId c
  row : Int
  column : Int
  hexAddr : Addr
deriving DecidableEq

namespace CommandType

variable (t : CommandType)

def isRefresh : Bool := t = .refresh || t = .refreshBank

def isRead : Bool := t = .read || t = .readPrecharge

def isWrite : Bool := t = .write || t = .writePrecharge

def isReadWrite : Bool := t.isRead || t.isWrite

def isRankCMD : Bool := t = .refresh || t = .srefEnter || t = .srefExit

variable {t}

theorem isReadWrite_cases (h : t.isReadWrite = true) :
    t = .read ∨ t = .readPrecharge ∨ t = .write ∨ t = .writePrecharge := by
  revert h
  cases t <;> decide

/-- A read or a write goes to a bank. -/
theorem isRankCMD_of_isReadWrite (h : t.isReadWrite = true) : t.isRankCMD = false := by
  revert h
  cases t <;> decide

theorem isReadWrite_of_isRefresh (h : t.isRefresh = true) : t.isReadWrite = false := by
  revert h
  cases t <;> decide

theorem isRead_of_isWrite (h : t.isWrite = true) : t.isRead = false := by
  revert h
  cases t <;> decide

end CommandType

/-- `Transaction` -/
structure Transaction where
  addr : Addr
  addedCycle : Nat
  completeCycle : Nat
  isWrite : Bool
deriving DecidableEq, Repr

/-- `clk + delay` for an `uint64_t` and an `int`. No run is so long that the sum passes `2 ^ 64`,
but a negative sum wraps. -/
def addDelay (clk : Nat) (delay : Int) : Nat :=
  if 0 ≤ clk + delay then (clk + delay).toNat else (clk + delay + 2 ^ 64).toNat

theorem le_addDelay (clk : Nat) (delay : Int) : clk + delay ≤ addDelay clk delay := by
  unfold addDelay
  split
  · omega
  · omega

theorem addDelay_eq {clk : Nat} {delay : Int} (h : 0 ≤ delay) :
    (addDelay clk delay : Int) = clk + delay := by
  unfold addDelay
  rw [if_pos (by omega)]
  omega

/-! ## Delays -/

namespace Config

variable (c : Config)

def rl : Int := c.timing.al + c.timing.cl

def wl : Int := c.timing.al + c.timing.cwl

def readDelay : Int := c.rl + c.burstCycle

def writeDelay : Int := c.wl + c.burstCycle

def tRC : Int := c.timing.tRAS + c.timing.tRP

/-- With a single bankgroup the device uses the short delays. -/
def sameBankgroup (long short : Int) : Int := if c.bankgroups = 1 then short else long

def readToReadL : Int :=
  max c.burstCycle (c.sameBankgroup c.timing.tCCDL c.timing.tCCDS)

def readToReadS : Int := max c.burstCycle c.timing.tCCDS

def readToReadO : Int := c.burstCycle + c.timing.tRTRS

def readToWrite : Int := c.rl + c.burstCycle - c.wl + c.timing.tRTRS

def readToWriteO : Int := c.readDelay + c.burstCycle + c.timing.tRTRS - c.writeDelay

def readToPrecharge : Int := c.timing.al + c.timing.tRTP

def readpToAct : Int := c.timing.al + c.burstCycle + c.timing.tRTP + c.timing.tRP

def writeToReadL : Int := c.writeDelay + c.sameBankgroup c.timing.tWTRL c.timing.tWTRS

def writeToReadS : Int := c.writeDelay + c.timing.tWTRS

def writeToReadO : Int := c.writeDelay + c.burstCycle + c.timing.tRTRS - c.readDelay

def writeToWriteL : Int :=
  max c.burstCycle (c.sameBankgroup c.timing.tCCDL c.timing.tCCDS)

def writeToWriteS : Int := max c.burstCycle c.timing.tCCDS

def writeToWriteO : Int := c.burstCycle

def writeToPrecharge : Int := c.wl + c.burstCycle + c.timing.tWR

def prechargeToActivate : Int := c.timing.tRP

def readToActivate : Int := c.readToPrecharge + c.prechargeToActivate

def writeToActivate : Int := c.writeToPrecharge + c.prechargeToActivate

def activateToActivateL : Int := c.sameBankgroup c.timing.tRRDL c.timing.tRRDS

def activateToRead : Int :=
  if c.protocol.isGDDR || c.protocol.isHBM then c.timing.tRCDRD else c.timing.tRCD - c.timing.al

def activateToWrite : Int :=
  if c.protocol.isGDDR || c.protocol.isHBM then c.timing.tRCDWR else c.timing.tRCD - c.timing.al

/-! ## The tables of `Timing` -/

/-- The delays of the next read and of the next write. -/
def afterBurst (toRead toWrite : Int) : List (CommandType × Int) :=
  [(.read, toRead), (.write, toWrite), (.readPrecharge, toRead), (.writePrecharge, toWrite)]

/-- The delays of the commands to a bank that has been closed. -/
def afterClosing (toActivate toRefresh : Int) : List (CommandType × Int) :=
  [(.activate, toActivate), (.refresh, toRefresh), (.refreshBank, toRefresh),
    (.srefEnter, toRefresh)]

def sameBank : CommandType → List (CommandType × Int)
  | .read => afterBurst c.readToReadL c.readToWrite ++ [(.precharge, c.readToPrecharge)]
  | .write => afterBurst c.writeToReadL c.writeToWriteL ++ [(.precharge, c.writeToPrecharge)]
  | .readPrecharge => afterClosing c.readpToAct c.readToActivate
  | .writePrecharge => afterClosing c.writeToActivate c.writeToActivate
  | .activate =>
    (.activate, c.tRC) :: afterBurst c.activateToRead c.activateToWrite ++
      [(.precharge, c.timing.tRAS)]
  | .precharge => afterClosing c.prechargeToActivate c.prechargeToActivate
  | .refreshBank | .refresh | .srefEnter | .srefExit => []

/-- The two tables for the other banks of the rank. The last delay is the one between two
activations. -/
def otherBanksSameRank (toReadR toWriteW toReadW toActivate : Int) :
    CommandType → List (CommandType × Int)
  | .read | .readPrecharge => afterBurst toReadR c.readToWrite
  | .write | .writePrecharge => afterBurst toReadW toWriteW
  | .activate => [(.activate, toActivate), (.refreshBank, c.tRC)]
  | .precharge =>
    if c.protocol.isGDDR || c.protocol = .lpddr4 then [(.precharge, c.timing.tPPD)] else []
  | .refreshBank => [(.activate, c.timing.tRFC), (.refreshBank, c.timing.tREFI)]
  | .refresh | .srefEnter | .srefExit => []

def otherBanksSameBankgroup : CommandType → List (CommandType × Int) :=
  c.otherBanksSameRank c.readToReadL c.writeToWriteL c.writeToReadL c.activateToActivateL

def otherBankgroupsSameRank : CommandType → List (CommandType × Int) :=
  c.otherBanksSameRank c.readToReadS c.writeToWriteS c.writeToReadS c.timing.tRRDS

def otherRanks : CommandType → List (CommandType × Int)
  | .read | .readPrecharge => afterBurst c.readToReadO c.readToWriteO
  | .write | .writePrecharge => afterBurst c.writeToReadO c.writeToWriteO
  | .activate | .precharge | .refreshBank | .refresh | .srefEnter | .srefExit => []

/-- The entry for `REFRESH_BANK` is set by the constructor and read nowhere. -/
def sameRank : CommandType → List (CommandType × Int)
  | .refreshBank => afterClosing c.timing.tRFCb c.timing.tRFCb
  | .refresh =>
    [(.activate, c.timing.tRFC), (.refresh, c.timing.tRFC), (.srefEnter, c.timing.tRFC)]
  | .srefEnter => [(.srefExit, c.timing.tCKESR)]
  | .srefExit => afterClosing c.timing.tXS c.timing.tXS
  | .read | .readPrecharge | .write | .writePrecharge | .activate | .precharge => []

end Config

end NetSim.Memory
