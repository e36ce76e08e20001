import NetSim.Memory.Config

/-!
# The address mapping

`Config::AddressMapping`: six fields of an address, each a shift and a mask. `SetAddressMapping`
lays the fields out without a gap from bit `shift_bits` on, so the fields of an address are its bits
from there, and each combination of values belongs to exactly one burst of the memory
(`addressMapping_burst`). That the fields fit in the 64 bits of an address is `Config.fits`; the
source does not check it.
-/

namespace NetSim.Memory

open Common Dram Library

variable (c : Config)

/-- A bank of a channel. -/
structure BankId where
  rank : Fin c.ranks
  bankgroup : Fin c.bankgroups
  bank : Fin c.banksPerGroup
deriving DecidableEq

/-- `Address` -/
structure Address where
  channel : Fin c.channels
  bank : BankId c
  row : Nat
  column : Nat
deriving DecidableEq

variable {c} in
/-- The component of a field. -/
def Address.get (t : Address c) : Field → Nat
  | .ch => t.channel
  | .ra => t.bank.rank
  | .bg => t.bank.bankgroup
  | .ba => t.bank.bank
  | .ro => t.row
  | .co => t.column

namespace Config

/-- `field_widths` -/
def width (f : Field) : Nat := c.geometry.fieldWidth f

/-- `ch_pos`, `ra_pos` and so on. -/
def pos (f : Field) : Nat := (c.geometry.fieldPos c.fields).2 f

/-- The number of bits of all fields. -/
def addressBits : Nat := (c.geometry.fieldPos c.fields).1

/-- `ch_mask`, `ra_mask` and so on. -/
def mask (f : Field) : BitVec 64 := BitVec.ofNat 64 (2 ^ c.width f - 1)

def field (f : Field) (hexAddr : Addr) : Nat :=
  let hexAddr := hexAddr >>> c.shiftBits
  ((hexAddr >>> c.pos f) &&& c.mask f).toNat

/-- The number of the burst of an address. -/
def burstOf (hexAddr : Addr) : Nat := hexAddr.toNat / 2 ^ c.shiftBits % 2 ^ c.addressBits

variable {c} {f : Field} {a : Addr}

theorem fieldPos_eq (fields : List Field) :
    c.geometry.fieldPos fields = layout c.width fields := by
  induction fields with
  | nil => rfl
  | cons f fields ih =>
    unfold Geometry.fieldPos layout
    rw [ih]
    rfl

theorem mem_fields (f : Field) : f ∈ c.fields := by
  rw [c.fields_perm.mem_iff]
  cases f <;> simp [Field.all]

theorem fields_nodup : c.fields.Nodup := by
  rw [c.fields_perm.nodup_iff]
  decide

theorem pos_add_width (f : Field) : c.pos f + c.width f ≤ c.addressBits := by
  unfold pos addressBits
  rw [fieldPos_eq]
  exact layout_pos_add_width (mem_fields f)

/-- The shifts and the mask of a field. -/
theorem field_eq : c.field f a = a.toNat / 2 ^ c.shiftBits / 2 ^ c.pos f % 2 ^ c.width f := by
  have hfits := c.fits
  have hpos := pos_add_width (c := c) f
  have hwidth : c.width f ≤ 64 := by
    unfold addressBits at hpos
    omega
  have hmask : (c.mask f).toNat = 2 ^ c.width f - 1 := by
    have hlt := Nat.pow_le_pow_right (n := 2) (by omega) hwidth
    have hone : 0 < 2 ^ c.width f := Nat.two_pow_pos _
    unfold mask
    rw [BitVec.toNat_ofNat]
    exact Nat.mod_eq_of_lt (by omega)
  unfold field
  dsimp only
  rw [BitVec.toNat_and, hmask, Nat.and_two_pow_sub_one_eq_mod, BitVec.toNat_ushiftRight,
    BitVec.toNat_ushiftRight, Nat.shiftRight_eq_div_pow, Nat.shiftRight_eq_div_pow]

theorem field_lt : c.field f a < 2 ^ c.width f := by
  rw [field_eq]
  exact Nat.mod_lt _ (Nat.two_pow_pos _)

/-- A field is a bit field of the burst number. -/
theorem field_eq_extract : c.field f a = extract c.width c.fields f (c.burstOf a) := by
  unfold burstOf addressBits
  rw [fieldPos_eq, extract_mod (mem_fields f), field_eq]
  unfold extract pos
  rw [fieldPos_eq]

/-- `LogBase2` rounds down, so a field is an index of what it counts. -/
theorem lt_of_lt_two_pow_log2 {n size : Nat} (hsize : 0 < size) (h : n < 2 ^ size.log2) :
    n < size :=
  Nat.lt_of_lt_of_le h (Nat.log2_self_le (Nat.pos_iff_ne_zero.mp hsize))

theorem channel_lt (a : Addr) : c.field .ch a < c.channels :=
  lt_of_lt_two_pow_log2 c.channels_pos field_lt

theorem rank_lt (a : Addr) : c.field .ra a < c.ranks :=
  lt_of_lt_two_pow_log2 c.ranks_pos field_lt

theorem bankgroup_lt (a : Addr) : c.field .bg a < c.bankgroups :=
  lt_of_lt_two_pow_log2 c.bankgroups_pos field_lt

theorem bank_lt (a : Addr) : c.field .ba a < c.banksPerGroup :=
  lt_of_lt_two_pow_log2 c.banksPerGroup_pos field_lt

variable (c)

/-- `Config::AddressMapping` -/
def addressMapping (a : Addr) : Address c where
  channel := ⟨c.field .ch a, channel_lt a⟩
  bank := ⟨⟨c.field .ra a, rank_lt a⟩, ⟨c.field .bg a, bankgroup_lt a⟩, ⟨c.field .ba a, bank_lt a⟩⟩
  row := c.field .ro a
  column := c.field .co a

/-- `BaseDRAMSystem::GetChannel` -/
def getChannel (a : Addr) : Fin c.channels := (c.addressMapping a).channel

variable {c}

@[simp] theorem get_addressMapping (f : Field) (a : Addr) :
    (c.addressMapping a).get f = c.field f a := by
  cases f <;> rfl

/-- The channel is the one that the wrapper finds. -/
theorem getChannel_eq {m : AddressMapping} (hm : c.geometry.setAddressMapping c.fields = some m)
    (a : Addr) : (c.getChannel a).val = (m.getChannel a).val := by
  have hfields : c.shiftBits = m.shiftBits ∧ c.pos .ch = m.chPos ∧ c.width .ch = m.chBits := by
    unfold Geometry.setAddressMapping at hm
    dsimp only at hm
    split at hm
    · split at hm
      · cases hm
        exact ⟨rfl, rfl, rfl⟩
      · cases hm
    · cases hm
  obtain ⟨hshift, hpos, hwidth⟩ := hfields
  show c.field .ch a = _
  rw [field_eq, AddressMapping.getChannel_val, Nat.div_div_eq_div_mul, ← Nat.pow_add, hshift, hpos,
    hwidth]
  rfl

end Config

/-- Any combination of values of the six bit fields, each of any value that its width allows,
belongs to exactly one burst: the addresses that are mapped to these values are those of the
burst. -/
theorem addressMapping_burst (c : Config) (v : ∀ f, Fin (2 ^ c.width f)) :
    ∃! n, n < 2 ^ c.addressBits ∧
      ∀ a, c.burstOf a = n ↔ ∀ f, (c.addressMapping a).get f = (v f).val := by
  have hv : ∀ f ∈ c.fields, (v f).val < 2 ^ c.width f := fun f _ => (v f).isLt
  have hbits : c.addressBits = (layout c.width c.fields).1 :=
    congrArg Prod.fst (Config.fieldPos_eq c.fields)
  let n := pack c.width (fun f => (v f).val) c.fields
  have hn : n < 2 ^ c.addressBits := by
    rw [hbits]
    exact pack_lt hv
  have hspec : ∀ a, c.burstOf a = n ↔ ∀ f, (c.addressMapping a).get f = (v f).val := by
    intro a
    simp only [Config.get_addressMapping, Config.field_eq_extract]
    constructor
    · intro heq f
      rw [heq]
      exact extract_pack Config.fields_nodup hv (Config.mem_fields f)
    · intro hfields
      have hpack : pack c.width (fun f => extract c.width c.fields f (c.burstOf a)) c.fields = _ :=
        pack_extract Config.fields_nodup (c.burstOf a)
      have hlt : c.burstOf a < 2 ^ c.addressBits := Nat.mod_lt _ (Nat.two_pow_pos _)
      simp only [hfields] at hpack
      rw [← hbits, Nat.mod_eq_of_lt hlt] at hpack
      exact hpack.symm
  refine ⟨n, ⟨hn, hspec⟩, fun n' hn' => ?_⟩
  -- the first address of the burst `n'`
  let a : Addr := BitVec.ofNat 64 (n' * 2 ^ c.shiftBits)
  have hfits : c.shiftBits + c.addressBits ≤ 64 := c.fits
  have ha : c.burstOf a = n' := by
    have hlt : n' * 2 ^ c.shiftBits < 2 ^ 64 := by
      calc n' * 2 ^ c.shiftBits < 2 ^ c.addressBits * 2 ^ c.shiftBits :=
            Nat.mul_lt_mul_of_pos_right hn'.1 (Nat.two_pow_pos _)
        _ = 2 ^ (c.shiftBits + c.addressBits) := by rw [Nat.add_comm, Nat.pow_add]
        _ ≤ 2 ^ 64 := Nat.pow_le_pow_right (by omega) hfits
    show (BitVec.ofNat 64 _).toNat / _ % _ = _
    rw [BitVec.toNat_ofNat, Nat.mod_eq_of_lt hlt, Nat.mul_div_cancel _ (Nat.two_pow_pos _),
      Nat.mod_eq_of_lt hn'.1]
  exact ha.symm.trans ((hspec a).mpr ((hn'.2 a).mp ha))

end NetSim.Memory
