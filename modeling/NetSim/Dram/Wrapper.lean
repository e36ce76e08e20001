import NetSim.Common.Packet
import Mathlib.Logic.Function.Basic

/-!
# The wrapper and its channels

`dramsim3_wrapper` of `src/dram/dramsim3_wrapper.h` and `src/dram/dramsim3_wrapper.cpp`, and the
channel of an address in the vendored memory model: `Config::CalculateSize`,
`Config::SetAddressMapping`, and `GetChannel`, `WillAcceptTransaction` and `AddTransaction` of
its memory system.

A transaction is enqueued on the channel of its address. When it is complete the memory model
calls the wrapper with the address, and the wrapper computes the channel anew to find the
callback. Its own `get_channel` takes an `address_t`, which has 32 bits.
-/

namespace NetSim.Dram

open Common

/-- `CHANNEL_NUM` -/
def channelNum : Nat := 8

abbrev ChannelId := Fin channelNum

/-! ## The address mapping -/

/-- The fields of a mapping string. -/
inductive Field
  | ch
  | ra
  | bg
  | ba
  | ro
  | co
deriving DecidableEq, Repr

def Field.all : List Field := [.ch, .ra, .bg, .ba, .ro, .co]

/-- The entries of a configuration file that the mapping is computed from. A burst is not longer
than a row, so no field has a negative width. -/
structure Geometry where
  bankgroups : Nat
  banksPerGroup : Nat
  rows : Nat
  columns : Nat
  deviceWidth : Nat
  bl : Nat
  channelSize : Nat
  channels : Nat
  busWidth : Nat
  bl_le : bl ≤ columns

namespace Geometry

variable (g : Geometry)

/-- `Config::CalculateSize` -/
def ranks : Nat :=
  let devicesPerRank := g.busWidth / g.deviceWidth
  let pageSize := g.columns * g.deviceWidth / 8
  let megsPerBank := pageSize * (g.rows / 1024) / 1024
  let megsPerRank := megsPerBank * (g.bankgroups * g.banksPerGroup) * devicesPerRank
  if megsPerRank > g.channelSize then 1 else g.channelSize / megsPerRank

/-- `field_widths`; `LogBase2` rounds down. -/
def fieldWidth : Field → Nat
  | .ch => g.channels.log2
  | .ra => g.ranks.log2
  | .bg => g.bankgroups.log2
  | .ba => g.banksPerGroup.log2
  | .ro => g.rows.log2
  | .co => g.columns.log2 - g.bl.log2

/-- `field_pos`: the loop takes the fields from the back. -/
def fieldPos : List Field → Nat × (Field → Nat)
  | [] => (0, fun _ => 0)
  | token :: fields =>
    let r := fieldPos fields
    (r.1 + g.fieldWidth token, Function.update r.2 token r.1)

end Geometry

/-- Where the memory model finds the channel in an address. The shifts are less than the width of
an address, and the mask has at most `CHANNEL_NUM` values. -/
structure AddressMapping where
  shiftBits : Nat
  chPos : Nat
  chBits : Nat
  shiftBits_lt : shiftBits < 64
  chPos_lt : chPos < 64
  channels_le : 2 ^ chBits ≤ channelNum
deriving DecidableEq

/-- `Config::SetAddressMapping`. Each field has to stand in the mapping string once. -/
def Geometry.setAddressMapping (g : Geometry) (fields : List Field) : Option AddressMapping :=
  let shiftBits := (g.busWidth / 8 * g.bl).log2
  let chPos := (g.fieldPos fields).2 .ch
  let chBits := g.fieldWidth .ch
  if fields.length = 6 ∧ ∀ f ∈ Field.all, f ∈ fields then
    if h : shiftBits < 64 ∧ chPos < 64 ∧ 2 ^ chBits ≤ channelNum then
      some ⟨shiftBits, chPos, chBits, h.1, h.2.1, h.2.2⟩
    else none
  else none

namespace AddressMapping

variable (m : AddressMapping)

def chMask : BitVec 64 := BitVec.ofNat 64 (2 ^ m.chBits - 1)

/-- The lowest bit of an address that belongs to the channel. -/
def lowBit : Nat := m.shiftBits + m.chPos

theorem chMask_toNat : m.chMask.toNat = 2 ^ m.chBits - 1 := by
  have hle := m.channels_le
  unfold channelNum at hle
  unfold chMask
  rw [BitVec.toNat_ofNat]
  exact Nat.mod_eq_of_lt (by omega)

theorem masked_lt (x : BitVec 64) : (x &&& m.chMask).toNat < channelNum := by
  have hle := m.channels_le
  have hpos : 0 < 2 ^ m.chBits := Nat.two_pow_pos _
  rw [BitVec.toNat_and, chMask_toNat, Nat.and_two_pow_sub_one_eq_mod]
  have hlt : x.toNat % 2 ^ m.chBits < 2 ^ m.chBits := Nat.mod_lt _ hpos
  omega

/-- `MemorySystem::GetChannel` -/
def getChannel (hexAddr : BitVec 64) : ChannelId :=
  let hexAddr := hexAddr >>> m.shiftBits
  ⟨((hexAddr >>> m.chPos) &&& m.chMask).toNat, m.masked_lt _⟩

end AddressMapping

/-! ## The wrapper -/

/-- What the controller of a channel holds. -/
structure Transaction where
  addr : Addr
  isWrite : Bool
deriving DecidableEq, Repr

/-- The transactions that the controllers hold. -/
abbrev Queues := ChannelId → List Transaction

/-- `dramsim3_wrapper`, with the controllers of its memory system, over a state `σ` of the objects
that have registered callbacks. -/
structure Wrapper (σ : Type) where
  mapping : AddressMapping
  willAccept : List Transaction → Transaction → Bool
  readCallbacks : ChannelId → Option (Addr → σ → σ)
  writeCallbacks : ChannelId → Option (Addr → σ → σ)

/-- Call a `std::function` if it holds one. -/
def invoke {σ : Type} (callback : Option (Addr → σ → σ)) (addr : Addr) (s : σ) : σ :=
  match callback with
  | some f => f addr s
  | none => s

namespace Wrapper

variable {σ : Type} (W : Wrapper σ)

/-- `dramsim3_wrapper::can_accept` -/
def canAccept (addr : BitVec 64) (isWrite : Bool) (queues : Queues) : Bool :=
  W.willAccept (queues (W.mapping.getChannel addr)) ⟨addr, isWrite⟩

/-- `dramsim3_wrapper::send_request`; the memory model asserts that it accepts. -/
def sendRequest (addr : BitVec 64) (isWrite : Bool) (queues : Queues) : Option Queues :=
  let channel := W.mapping.getChannel addr
  if W.canAccept addr isWrite queues then
    some (Function.update queues channel (queues channel ++ [⟨addr, isWrite⟩]))
  else none

/-- `dramsim3_wrapper::get_channel`; its parameter is an `address_t`. -/
def getChannel (addr : BitVec 32) : ChannelId := W.mapping.getChannel (addr.setWidth 64)

/-- The body of the two global callbacks, over the table that each of them reads. -/
def globalCallback (callbacks : ChannelId → Option (Addr → σ → σ)) (addr : BitVec 64) (s : σ) : σ :=
  let ch := W.getChannel (addr.setWidth 32)
  invoke (callbacks ch) addr s

/-- `dramsim3_wrapper::global_read_callback` -/
def globalReadCallback : BitVec 64 → σ → σ := W.globalCallback W.readCallbacks

/-- `dramsim3_wrapper::global_write_callback` -/
def globalWriteCallback : BitVec 64 → σ → σ := W.globalCallback W.writeCallbacks

end Wrapper

/-! ## The channel of a completion -/

namespace AddressMapping

variable (m : AddressMapping) (a b : BitVec 64)

theorem getChannel_val :
    (m.getChannel a).val = a.toNat / 2 ^ m.lowBit % 2 ^ m.chBits := by
  unfold getChannel lowBit
  dsimp only
  rw [BitVec.toNat_and, chMask_toNat, Nat.and_two_pow_sub_one_eq_mod, BitVec.toNat_ushiftRight,
    BitVec.toNat_ushiftRight, Nat.shiftRight_eq_div_pow, Nat.shiftRight_eq_div_pow,
    Nat.div_div_eq_div_mul, ← Nat.pow_add]

/-- The channel is the bits of the channel field. -/
theorem getChannel_eq_iff :
    m.getChannel a = m.getChannel b ↔
      ∀ i < m.chBits, a.getLsbD (m.lowBit + i) = b.getLsbD (m.lowBit + i) := by
  rw [Fin.ext_iff, getChannel_val, getChannel_val]
  constructor
  · intro heq i hi
    have hbit := congrArg (fun n => n.testBit i) heq
    simpa [Nat.testBit_mod_two_pow, Nat.testBit_div_two_pow, hi, BitVec.getLsbD,
      Nat.add_comm] using hbit
  · intro hbits
    apply Nat.eq_of_testBit_eq
    intro i
    rw [Nat.testBit_mod_two_pow, Nat.testBit_mod_two_pow]
    by_cases hi : i < m.chBits
    · have hbit := hbits i hi
      simpa [Nat.testBit_div_two_pow, hi, BitVec.getLsbD, Nat.add_comm] using hbit
    · simp [hi]

/-- The bits of the channel field that an `address_t` does not have. -/
def HighChannelBitsClear : Prop :=
  ∀ i < m.chBits, 32 ≤ m.lowBit + i → a.getLsbD (m.lowBit + i) = false

theorem getChannel_truncate_iff :
    m.getChannel ((a.setWidth 32).setWidth 64) = m.getChannel a ↔ m.HighChannelBitsClear a := by
  rw [getChannel_eq_iff]
  refine forall₂_congr fun i _ => ?_
  by_cases hlow : m.lowBit + i < 32
  · simp [hlow, show m.lowBit + i < 64 by omega]
  · have hge : 32 ≤ m.lowBit + i := by omega
    simp only [BitVec.getLsbD_setWidth, hge, forall_true_left]
    simp [hlow]

end AddressMapping

/-- The callbacks that a completion of `a` invokes are those of the channel which a transaction on
`a` is enqueued on. -/
def DispatchAgrees (m : AddressMapping) (a : BitVec 64) : Prop :=
  ∀ (σ : Type) (W : Wrapper σ) (isWrite : Bool) (queues queues' : Queues) (ch : ChannelId) (s : σ),
    W.mapping = m → W.sendRequest a isWrite queues = some queues' → queues' ch ≠ queues ch →
      W.globalReadCallback a s = invoke (W.readCallbacks ch) a s ∧
        W.globalWriteCallback a s = invoke (W.writeCallbacks ch) a s

/-- A wrapper whose callbacks report their channel. -/
def Wrapper.reporting (m : AddressMapping) : Wrapper (Option ChannelId) where
  mapping := m
  willAccept _ _ := true
  readCallbacks ch := some fun _ _ => some ch
  writeCallbacks ch := some fun _ _ => some ch

/-- `send_request` enqueues on the channel of the whole address. -/
theorem Wrapper.sendRequest_channel {σ : Type} {W : Wrapper σ} {a : BitVec 64} {isWrite : Bool}
    {queues queues' : Queues} {ch : ChannelId}
    (hsend : W.sendRequest a isWrite queues = some queues') (hch : queues' ch ≠ queues ch) :
    ch = W.mapping.getChannel a := by
  unfold Wrapper.sendRequest at hsend
  dsimp only at hsend
  split at hsend
  · cases hsend
    by_contra hne
    exact hch (Function.update_of_ne hne _ _)
  · cases hsend

/-- Callbacks that report their channel tell the two channels apart. -/
theorem DispatchAgrees.getChannel_truncate {m : AddressMapping} {a : BitVec 64}
    (h : DispatchAgrees m a) : m.getChannel ((a.setWidth 32).setWidth 64) = m.getChannel a := by
  have hsend : (Wrapper.reporting m).sendRequest a false (fun _ => []) =
      some (Function.update (fun _ => []) (m.getChannel a) [⟨a, false⟩]) := rfl
  obtain ⟨hread, -⟩ := h _ _ false _ _ (m.getChannel a) none rfl hsend (by simp)
  exact Option.some.inj hread

/-- A completion finds the channel of its transaction exactly when the bits of the channel field
that do not fit in an `address_t` are zero. -/
theorem dispatch_agrees_iff (m : AddressMapping) (a : BitVec 64) :
    DispatchAgrees m a ↔ m.HighChannelBitsClear a := by
  rw [← m.getChannel_truncate_iff a]
  constructor
  · intro hagrees
    exact hagrees.getChannel_truncate
  · rintro hchannel σ W isWrite queues queues' ch s rfl hsend hch
    have hch := Wrapper.sendRequest_channel hsend hch
    subst hch
    have hdispatch : W.getChannel (a.setWidth 32) = W.mapping.getChannel a := hchannel
    unfold Wrapper.globalReadCallback Wrapper.globalWriteCallback Wrapper.globalCallback
    dsimp only
    rw [hdispatch]
    exact ⟨rfl, rfl⟩

/-- The devices of `HBM2_8Gb_x128.ini`. `InitDRAMParams` doubles the columns of an HBM file. -/
def Geometry.hbm2Large : Geometry where
  bankgroups := 4
  banksPerGroup := 4
  rows := 32768
  columns := 128
  deviceWidth := 128
  bl := 4
  channelSize := 1024
  channels := 8
  busWidth := 128
  bl_le := by decide

/-- With the mapping `chrobabgraco`, the default of the memory model, the channel field of these
devices ends at bit 32. A transaction on the address of that bit is enqueued on channel 4, and its
completion goes to channel 0. -/
theorem dispatch_differs :
    ∃ m, Geometry.hbm2Large.setAddressMapping [.ch, .ro, .ba, .bg, .ra, .co] = some m ∧
      (m.getChannel (2 ^ 32)).val = 4 ∧
      ((Wrapper.reporting m).getChannel ((2 ^ 32 : Addr).setWidth 32)).val = 0 ∧
      ¬ DispatchAgrees m (2 ^ 32) := by
  refine ⟨⟨6, 24, 3, by decide, by decide, by decide⟩, by decide +kernel, by decide +kernel,
    by decide +kernel, ?_⟩
  intro hagrees
  have hchannel := hagrees.getChannel_truncate
  revert hchannel
  decide +kernel

end NetSim.Dram
