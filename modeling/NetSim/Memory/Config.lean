import NetSim.Dram.Wrapper
import NetSim.Library.BitFields

/-!
# The configuration of the memory model

`Config` of `DRAMsim3-master/src/configuration.h` and `DRAMsim3-master/src/configuration.cc`: what
the constructor computes from the entries of a configuration file, and `AddressMapping`. The entries
for power, temperature and output are left out, and so are the links of the protocol HMC, whose
memory system is another class. An `int` that counts something is a natural number; the delays, of
which differences are taken, are integers.
-/

namespace NetSim.Memory

open Common Dram Library

/-- The ways in which the memory model ends the program. -/
inductive Exit
  /-- `AbruptExit` -/
  | abruptExit
  /-- `std::map::at` throws. -/
  | outOfRange
  /-- A size or an interval is zero. -/
  | zeroDivision
  /-- `exit(1)` of `Controller::IssueCommand` -/
  | notInReadQueue
  | notInWriteQueue
  /-- `exit(1)` of `CommandQueue::EraseRWCommand` -/
  | cannotFindCmd
  /-- The assert of `JedecDRAMSystem::AddTransaction` -/
  | assertion
deriving DecidableEq, Repr

/-- `DRAMProtocol` -/
inductive Protocol
  | ddr3
  | ddr4
  | gddr5
  | gddr5x
  | gddr6
  | lpddr
  | lpddr3
  | lpddr4
  | hbm
  | hbm2
  | hmc
deriving DecidableEq, Repr

namespace Protocol

def isGDDR (p : Protocol) : Bool := p = .gddr5 || p = .gddr5x || p = .gddr6

def isHBM (p : Protocol) : Bool := p = .hbm || p = .hbm2

end Protocol

inductive RefreshPolicy
  | rankLevelSimultaneous
  | rankLevelStaggered
  | bankLevelStaggered
deriving DecidableEq, Repr

inductive QueueStructure
  | perRank
  | perBank
deriving DecidableEq, Repr

inductive RowBufPolicy
  | openPage
  | closePage
deriving DecidableEq, Repr

/-! ## The entries of a file -/

/-- The section `timing`, with the defaults of `InitTimingParams`. -/
structure TimingEntries where
  al : Int := 0
  cl : Int := 12
  cwl : Int := 12
  tCCDL : Int := 6
  tCCDS : Int := 4
  tRTRS : Int := 2
  tRTP : Int := 5
  tWTRL : Int := 5
  tWTRS : Int := 5
  tWR : Int := 10
  tRP : Int := 10
  tRRDL : Int := 4
  tRRDS : Int := 4
  tRAS : Int := 24
  tRCD : Int := 10
  tRFC : Int := 74
  tCKESR : Int := 12
  tXS : Int := 432
  tRFCb : Int := 20
  tREFI : Int := 7800
  tREFIb : Int := 1950
  tFAW : Int := 50
  tPPD : Int := 0
  t32AW : Int := 330
  tRCDRD : Int := 24
  tRCDWR : Int := 20

/-- The other sections, with the defaults of `InitSystemParams` and `InitDRAMParams`. -/
structure ConfigFile where
  protocol : String := "DDR3"
  bankgroups : Nat := 2
  banksPerGroup : Nat := 2
  bankgroupEnable : Bool := true
  rows : Nat := 65536
  columns : Nat := 1024
  deviceWidth : Nat := 8
  bl : Nat := 8
  hbmDualCmd : Bool := true
  channelSize : Nat := 1024
  channels : Nat := 1
  busWidth : Nat := 64
  addressMapping : String := "chrobabgraco"
  queueStructure : String := "PER_BANK"
  rowBufPolicy : String := "OPEN_PAGE"
  cmdQueueSize : Nat := 16
  transQueueSize : Nat := 32
  unifiedQueue : Bool := false
  refreshPolicy : String := "RANK_LEVEL_STAGGERED"
  enableSelfRefresh : Bool := false
  srefThreshold : Int := 1000
  timing : TimingEntries := {}

/-- `Config::GetDRAMProtocol` -/
def getDRAMProtocol (protocol : String) : Except Exit Protocol :=
  match protocol with
  | "DDR3" => .ok .ddr3
  | "DDR4" => .ok .ddr4
  | "GDDR5" => .ok .gddr5
  | "GDDR5X" => .ok .gddr5x
  | "GDDR6" => .ok .gddr6
  | "LPDDR" => .ok .lpddr
  | "LPDDR3" => .ok .lpddr3
  | "LPDDR4" => .ok .lpddr4
  | "HBM" => .ok .hbm
  | "HBM2" => .ok .hbm2
  | "HMC" => .ok .hmc
  | _ => .error .abruptExit

/-- The end of `Config::InitSystemParams` -/
def getRefreshPolicy (policy : String) : Except Exit RefreshPolicy :=
  match policy with
  | "RANK_LEVEL_SIMULTANEOUS" => .ok .rankLevelSimultaneous
  | "RANK_LEVEL_STAGGERED" => .ok .rankLevelStaggered
  | "BANK_LEVEL_STAGGERED" => .ok .bankLevelStaggered
  | _ => .error .abruptExit

/-- The constructor of `CommandQueue` -/
def getQueueStructure (structure_ : String) : Except Exit QueueStructure :=
  match structure_ with
  | "PER_BANK" => .ok .perBank
  | "PER_RANK" => .ok .perRank
  | _ => .error .abruptExit

/-- The constructor of `Controller` -/
def getRowBufPolicy (policy : String) : RowBufPolicy :=
  if policy = "CLOSE_PAGE" then .closePage else .openPage

/-- The keys of `field_widths` -/
def getField (token : List Char) : Except Exit Field :=
  match token with
  | ['c', 'h'] => .ok .ch
  | ['r', 'a'] => .ok .ra
  | ['b', 'g'] => .ok .bg
  | ['b', 'a'] => .ok .ba
  | ['r', 'o'] => .ok .ro
  | ['c', 'o'] => .ok .co
  | _ => .error .abruptExit

/-- The tokens of a mapping string. -/
def tokens : List Char → List (List Char)
  | x :: y :: rest => [x, y] :: tokens rest
  | [x] => [[x]]
  | [] => []

/-- The first half of `Config::SetAddressMapping`: the fields from the highest to the lowest. -/
def getFields (mapping : List Char) : Except Exit (List Field) := do
  if mapping.length ≠ 12 then throw .abruptExit
  let fields ← (tokens mapping).mapM getField
  if ∀ f ∈ Field.all, f ∈ fields then return fields
  throw .outOfRange

/-- The end of `Config::InitDRAMParams`: the cycles of a burst and the burst length. -/
def burst (protocol : Protocol) (bl : Nat) : Nat × Nat :=
  match protocol with
  | .gddr5 => (if bl = 0 then 0 else bl / 4, if bl = 0 then 8 else bl)
  | .gddr5x => (if bl = 0 then 0 else bl / 8, if bl = 0 then 8 else bl)
  | .gddr6 => (if bl = 0 then 0 else bl / 16, if bl = 0 then 8 else bl)
  | p => (if bl = 0 then 0 else bl / 2, if bl = 0 then if p.isHBM then 4 else 8 else bl)

/-- The cycles between two refreshes, as the constructor of `Refresh` computes them. -/
def refreshInterval (policy : RefreshPolicy) (ranks : Nat) (t : TimingEntries) : Int :=
  match policy with
  | .rankLevelSimultaneous => t.tREFI
  | .bankLevelStaggered => t.tREFIb
  | .rankLevelStaggered => t.tREFI.tdiv ranks

/-! ## The configuration -/

/-- `Config`. Every field of the mapping string stands in it once, no size is zero, and the fields
fit in an address. -/
structure Config where
  protocol : Protocol
  geometry : Geometry
  burstCycle : Nat
  fields : List Field
  timing : TimingEntries
  queueStructure : QueueStructure
  rowBufPolicy : RowBufPolicy
  refreshPolicy : RefreshPolicy
  cmdQueueSize : Nat
  unifiedQueue : Bool
  transQueueSize : Nat
  enableSelfRefresh : Bool
  srefThreshold : Int
  enableHbmDualCmd : Bool
  fields_perm : fields.Perm Field.all
  channels_pos : 0 < geometry.channels
  ranks_pos : 0 < geometry.ranks
  bankgroups_pos : 0 < geometry.bankgroups
  banksPerGroup_pos : 0 < geometry.banksPerGroup
  fits : (geometry.busWidth / 8 * geometry.bl).log2 + (geometry.fieldPos fields).1 ≤ 64
  interval_pos : 0 < refreshInterval refreshPolicy geometry.ranks timing

namespace Config

variable (c : Config)

def channels : Nat := c.geometry.channels

def ranks : Nat := c.geometry.ranks

def bankgroups : Nat := c.geometry.bankgroups

def banksPerGroup : Nat := c.geometry.banksPerGroup

/-- `banks` -/
def banks : Nat := c.bankgroups * c.banksPerGroup

/-- `shift_bits` -/
def shiftBits : Nat := (c.geometry.busWidth / 8 * c.geometry.bl).log2

/-- The constructor of `Config`, with the checks that the constructors of the other classes make on
its entries. -/
def ofFile (file : ConfigFile) : Except Exit Config := do
  let refreshPolicy ← getRefreshPolicy file.refreshPolicy
  let protocol ← getDRAMProtocol file.protocol
  let (burstCycle, bl) := burst protocol file.bl
  let columns :=
    if protocol.isGDDR then file.columns * bl
    else if protocol.isHBM then file.columns * 2
    else file.columns
  let bankgroups := if file.bankgroupEnable then file.bankgroups else 1
  let banksPerGroup :=
    if file.bankgroupEnable then file.banksPerGroup else file.banksPerGroup * file.bankgroups
  if hbl : bl ≤ columns then
    let geometry : Geometry :=
      ⟨bankgroups, banksPerGroup, file.rows, columns, file.deviceWidth, bl, file.channelSize,
        file.channels, file.busWidth, hbl⟩
    let fields ← getFields file.addressMapping.toList
    if protocol = .hmc then throw .abruptExit
    let queueStructure ← getQueueStructure file.queueStructure
    if h : fields.Perm Field.all ∧ 0 < geometry.channels ∧ 0 < geometry.ranks ∧
        0 < geometry.bankgroups ∧ 0 < geometry.banksPerGroup ∧
        (geometry.busWidth / 8 * geometry.bl).log2 + (geometry.fieldPos fields).1 ≤ 64 ∧
        0 < refreshInterval refreshPolicy geometry.ranks file.timing then
      return {
        protocol, geometry, burstCycle, fields, timing := file.timing, queueStructure
        rowBufPolicy := getRowBufPolicy file.rowBufPolicy
        refreshPolicy
        cmdQueueSize := file.cmdQueueSize
        unifiedQueue := file.unifiedQueue
        transQueueSize := file.transQueueSize
        enableSelfRefresh := file.enableSelfRefresh
        srefThreshold := file.srefThreshold
        enableHbmDualCmd := file.hbmDualCmd && protocol.isHBM
        fields_perm := h.1
        channels_pos := h.2.1
        ranks_pos := h.2.2.1
        bankgroups_pos := h.2.2.2.1
        banksPerGroup_pos := h.2.2.2.2.1
        fits := h.2.2.2.2.2.1
        interval_pos := h.2.2.2.2.2.2 }
    else throw .zeroDivision
  else throw .zeroDivision

/-! ## The configuration that `main` loads -/

/-- The section `timing` of `HBM2_4Gb_x128.ini`. -/
def hbm2Timing : TimingEntries :=
  { cl := 14, cwl := 4, tRCDRD := 14, tRCDWR := 14, tRP := 14, tRAS := 34, tRFC := 260
    tREFI := 3900, tREFIb := 128, tRRDS := 4, tRRDL := 6, tWTRS := 6, tWTRL := 8, tFAW := 30
    tWR := 16, tCCDS := 1, tCCDL := 2, tXS := 268 }

/-- `DRAMsim3-master/configs/HBM2_4Gb_x128.ini` -/
def hbm2File : ConfigFile :=
  { protocol := "HBM", bankgroups := 4, banksPerGroup := 4, rows := 16384, columns := 64
    deviceWidth := 128, bl := 4, channelSize := 512, channels := 8, busWidth := 128
    addressMapping := "rorabgbacoch", cmdQueueSize := 8, timing := hbm2Timing }

theorem hbm2_columns : 4 ≤ 128 := by decide

def hbm2Geometry : Geometry := ⟨4, 4, 16384, 128, 128, 4, 512, 8, 128, hbm2_columns⟩

def hbm2Fields : List Field := [.ro, .ra, .bg, .ba, .co, .ch]

theorem hbm2_fields : hbm2Fields.Perm Field.all := by decide

theorem hbm2_channels : 0 < hbm2Geometry.channels := by decide

theorem hbm2_ranks : 0 < hbm2Geometry.ranks := by decide

theorem hbm2_bankgroups : 0 < hbm2Geometry.bankgroups := by decide

theorem hbm2_banksPerGroup : 0 < hbm2Geometry.banksPerGroup := by decide

theorem hbm2_fits : (hbm2Geometry.busWidth / 8 * hbm2Geometry.bl).log2 +
    (hbm2Geometry.fieldPos hbm2Fields).1 ≤ 64 := by
  decide +kernel

theorem hbm2_interval :
    0 < refreshInterval .rankLevelStaggered hbm2Geometry.ranks hbm2Timing := by
  decide +kernel

def hbm2 : Config where
  protocol := .hbm
  geometry := hbm2Geometry
  burstCycle := 2
  fields := hbm2Fields
  timing := hbm2Timing
  queueStructure := .perBank
  rowBufPolicy := .openPage
  refreshPolicy := .rankLevelStaggered
  cmdQueueSize := 8
  unifiedQueue := false
  transQueueSize := 32
  enableSelfRefresh := false
  srefThreshold := 1000
  enableHbmDualCmd := true
  fields_perm := hbm2_fields
  channels_pos := hbm2_channels
  ranks_pos := hbm2_ranks
  bankgroups_pos := hbm2_bankgroups
  banksPerGroup_pos := hbm2_banksPerGroup
  fits := hbm2_fits
  interval_pos := hbm2_interval

theorem ofFile_hbm2File : ofFile hbm2File = .ok hbm2 := by
  rfl

end Config

end NetSim.Memory
