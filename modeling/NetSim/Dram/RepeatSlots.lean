import NetSim.Dram.Wrapper
import NetSim.Library.Table

/-!
# Repeat slots of the wrapper

`dramsim3_wrapper::request_read` marks the channel of an address in `channle_vld`, and when the
channel is marked already, the first slot of its row in `vld4repeate_ch` that is not set. A row is
declared with 64 slots, and the loop over it runs to 128. When all slots of a row are set the loop
leaves the row, and the error behind the loop is not reached.
-/

namespace NetSim.Dram

open Common Library

/-- The declared length of a row of `vld4repeate_ch`. -/
def repeateLength : Nat := 64

/-- The bound of the loop over a row in `request_read`. -/
def repeateBound : Nat := 128

/-- The fields of the wrapper that `request_read` uses, over a type `β` of buffers. A value in
`waitingAddrToBuf` is a pointer and may be null. -/
structure ReadMarks (β : Type) where
  waitingAddrToBuf : Addr → Option (Option β)
  channleVld : ChannelId → Bool
  vld4repeateCh : ChannelId → Fin repeateLength → Bool

/-- The marks that the constructor leaves. -/
def ReadMarks.init {β : Type} (waiting : Addr → Option (Option β)) : ReadMarks β where
  waitingAddrToBuf := waiting
  channleVld := fun _ => false
  vld4repeateCh := fun _ _ => false

/-- A buffer that waits for the address is forgotten. -/
def ReadMarks.forget {β : Type} (addr : Addr) (s : ReadMarks β) : ReadMarks β :=
  match s.waitingAddrToBuf addr with
  | some (some _) => { s with waitingAddrToBuf := Function.update s.waitingAddrToBuf addr none }
  | some none | none => s

/-- How a call of `request_read` ends. -/
inductive ReadEnd
  | returned
  /-- `std::invalid_argument` is thrown. -/
  | invalidArgument (what : String)
  /-- The index `i` of a row is used, and `i` is not below the length of the row. -/
  | outOfRange (i : Nat)
deriving DecidableEq, Repr

/-- The result of the loop over a row. -/
inductive SlotSearch
  | free (i : Fin repeateLength)
  | full
  | outOfRange (i : Nat)
deriving DecidableEq, Repr

/-- The loop of `request_read` from the index `i` on, with `n` iterations left. -/
def findSlot (row : Fin repeateLength → Bool) : Nat → Nat → SlotSearch
  | 0, _ => .full
  | n + 1, i =>
    if h : i < repeateLength then
      if row ⟨i, h⟩ then findSlot row n (i + 1) else .free ⟨i, h⟩
    else .outOfRange i

namespace Wrapper

variable {σ β : Type} (W : Wrapper σ)

/-- The channel that `request_read` computes for its address. -/
def readChannel (addr : Addr) : ChannelId := W.getChannel (addr.setWidth 32)

/-- `dramsim3_wrapper::request_read` -/
def requestRead (addr : Addr) (s : ReadMarks β) : ReadEnd × ReadMarks β :=
  let ch := W.readChannel addr
  let s := s.forget addr
  if !s.channleVld ch then
    (.returned, { s with channleVld := Function.update s.channleVld ch true })
  else match findSlot (s.vld4repeateCh ch) repeateBound 0 with
    | .free i => (.returned, { s with vld4repeateCh := set2 s.vld4repeateCh ch i true })
    | .full => (.invalidArgument "repeate full", s)
    | .outOfRange i => (.outOfRange i, s)

/-- The marks after a sequence of calls whose exceptions are caught, or nothing when one of the
calls used an index outside its row. -/
def requestReads (addrs : List Addr) (s : ReadMarks β) : Option (ReadMarks β) :=
  addrs.foldlM (fun s addr =>
    match W.requestRead addr s with
    | (.outOfRange _, _) => none
    | (_, s) => some s) s

/-- The number of calls for the channel `ch`. -/
def callsFor (ch : ChannelId) (addrs : List Addr) : Nat :=
  addrs.countP fun addr => W.readChannel addr = ch

end Wrapper

/-- The marks of a channel after `n` calls for it. -/
def ReadMarks.Counts {β : Type} (s : ReadMarks β) (ch : ChannelId) (n : Nat) : Prop :=
  (s.channleVld ch = true ↔ 1 ≤ n) ∧
    ∀ i : Fin repeateLength, s.vld4repeateCh ch i = true ↔ i.val < min (n - 1) repeateLength

/-- A call for `addr` in the state `s`, after the calls for `addrs`, stays in its row and in its
channel, marks the next slot, and throws exactly when there is none. -/
structure Wrapper.ReadKept {σ β : Type} (W : Wrapper σ) (addrs : List Addr) (addr : Addr)
    (s : ReadMarks β) : Prop where
  inRow : ∀ i, (W.requestRead addr s).1 ≠ .outOfRange i
  frame : ∀ ch, ch ≠ W.readChannel addr →
    (W.requestRead addr s).2.channleVld ch = s.channleVld ch ∧
      (W.requestRead addr s).2.vld4repeateCh ch = s.vld4repeateCh ch
  counts : ∀ ch, (W.requestRead addr s).2.Counts ch (W.callsFor ch (addrs ++ [addr]))
  throws : (∃ what, (W.requestRead addr s).1 = .invalidArgument what) ↔
    s.channleVld (W.readChannel addr) = true ∧
      ∀ i, s.vld4repeateCh (W.readChannel addr) i = true

/-- Every call of the sequence is as it should be. -/
def Wrapper.ReadsKept {σ β : Type} (W : Wrapper σ) (s₀ : ReadMarks β) (addrs : List Addr) : Prop :=
  ∀ before addr after, addrs = before ++ addr :: after →
    ∃ s, W.requestReads before s₀ = some s ∧ W.ReadKept before addr s

variable {σ β : Type} {W : Wrapper σ} {s : ReadMarks β} {addr : Addr} {addrs : List Addr}

/-! ## The loop -/

/-- When exactly the first `k` slots are set, the loop finds the slot `k`, and leaves the row when
there is no such slot. -/
theorem findSlot_eq {row : Fin repeateLength → Bool} {k : Nat}
    (hrow : ∀ i : Fin repeateLength, row i = true ↔ i.val < k) (hk : k ≤ repeateLength) {n i : Nat}
    (hi : i ≤ k) (hn : k < i + n) :
    findSlot row n i =
      if h : k < repeateLength then .free ⟨k, h⟩ else .outOfRange repeateLength := by
  induction n generalizing i with
  | zero => omega
  | succ n ih =>
    rw [findSlot]
    by_cases hik : i = k
    · subst hik
      split
      · rename_i hlt
        have hfree : row ⟨i, hlt⟩ ≠ true := fun h => Nat.lt_irrefl _ ((hrow _).mp h)
        rw [if_neg hfree]
      · rename_i hge
        rw [Nat.le_antisymm hk (Nat.le_of_not_lt hge)]
    · have hlt : i < repeateLength := by omega
      have hset : row ⟨i, hlt⟩ = true := (hrow _).mpr (show i < k by omega)
      rw [dif_pos hlt, if_pos hset]
      exact ih (by omega) (by omega)

/-! ## One call -/

@[simp] theorem ReadMarks.forget_channleVld (addr : Addr) (s : ReadMarks β) :
    (s.forget addr).channleVld = s.channleVld := by
  unfold ReadMarks.forget
  split <;> rfl

@[simp] theorem ReadMarks.forget_vld4repeateCh (addr : Addr) (s : ReadMarks β) :
    (s.forget addr).vld4repeateCh = s.vld4repeateCh := by
  unfold ReadMarks.forget
  split <;> rfl

/-- The call marks the channel, marks a slot of its row, leaves the row, or throws. -/
theorem requestRead_cases (W : Wrapper σ) (addr : Addr) (s : ReadMarks β) :
    (s.channleVld (W.readChannel addr) = false ∧
      W.requestRead addr s = (.returned, { s.forget addr with
        channleVld := Function.update s.channleVld (W.readChannel addr) true })) ∨
    (s.channleVld (W.readChannel addr) = true ∧
      ((∃ i, findSlot (s.vld4repeateCh (W.readChannel addr)) repeateBound 0 = .free i ∧
        W.requestRead addr s = (.returned, { s.forget addr with
          vld4repeateCh := set2 s.vld4repeateCh (W.readChannel addr) i true })) ∨
      (findSlot (s.vld4repeateCh (W.readChannel addr)) repeateBound 0 = .full ∧
        W.requestRead addr s = (.invalidArgument "repeate full", s.forget addr)) ∨
      (∃ i, findSlot (s.vld4repeateCh (W.readChannel addr)) repeateBound 0 = .outOfRange i ∧
        W.requestRead addr s = (.outOfRange i, s.forget addr)))) := by
  unfold Wrapper.requestRead
  simp only [ReadMarks.forget_channleVld, ReadMarks.forget_vld4repeateCh]
  cases hmark : s.channleVld (W.readChannel addr) with
  | false => exact .inl ⟨rfl, rfl⟩
  | true =>
    refine .inr ⟨rfl, ?_⟩
    cases hslot : findSlot (s.vld4repeateCh (W.readChannel addr)) repeateBound 0 with
    | free i => exact .inl ⟨i, rfl, rfl⟩
    | full => exact .inr (.inl ⟨rfl, rfl⟩)
    | outOfRange i => exact .inr (.inr ⟨i, rfl, rfl⟩)

/-- Only the marks of the channel of the address change. -/
theorem requestRead_frame (W : Wrapper σ) (addr : Addr) (s : ReadMarks β) {ch : ChannelId}
    (hch : ch ≠ W.readChannel addr) :
    (W.requestRead addr s).2.channleVld ch = s.channleVld ch ∧
      (W.requestRead addr s).2.vld4repeateCh ch = s.vld4repeateCh ch := by
  rcases requestRead_cases W addr s with ⟨-, heq⟩ |
    ⟨-, ⟨i, -, heq⟩ | ⟨-, heq⟩ | ⟨i, -, heq⟩⟩
  · rw [heq]
    exact ⟨Function.update_of_ne hch _ _, by rw [ReadMarks.forget_vld4repeateCh]⟩
  · rw [heq]
    exact ⟨by rw [ReadMarks.forget_channleVld], set2_row_of_ne hch⟩
  · rw [heq]
    simp
  · rw [heq]
    simp

/-- The row of a channel that has been called for `n` times. -/
theorem ReadMarks.Counts.findSlot {ch : ChannelId} {n : Nat} (h : s.Counts ch n) :
    findSlot (s.vld4repeateCh ch) repeateBound 0 =
      if h : min (n - 1) repeateLength < repeateLength then .free ⟨min (n - 1) repeateLength, h⟩
      else .outOfRange repeateLength :=
  findSlot_eq h.2 (Nat.min_le_right _ _) (Nat.zero_le _)
    ((Nat.min_le_right _ _).trans_lt (by decide))

/-- A call that finds a mark left over returns, and counts. -/
theorem ReadMarks.Counts.requestRead {n : Nat} (h : s.Counts (W.readChannel addr) n)
    (hn : n ≤ repeateLength) :
    (W.requestRead addr s).1 = .returned ∧
      (W.requestRead addr s).2.Counts (W.readChannel addr) (n + 1) := by
  obtain ⟨hmark, hrow⟩ := h
  rcases requestRead_cases W addr s with ⟨hclear, heq⟩ | ⟨hset, hslots⟩
  · have hzero : n = 0 := by
      by_contra hne
      have hset := hmark.mpr (Nat.one_le_iff_ne_zero.mpr hne)
      rw [hclear] at hset
      cases hset
    subst hzero
    rw [heq]
    refine ⟨rfl, by simp, fun i => ?_⟩
    simpa using hrow i
  · have hpos : 1 ≤ n := hmark.mp hset
    have hmin : min (n - 1) repeateLength = n - 1 := by omega
    have hfind := ReadMarks.Counts.findSlot ⟨hmark, hrow⟩
    have hlast : n - 1 < repeateLength := by omega
    rw [hmin, dif_pos hlast] at hfind
    obtain ⟨i, hi, heq⟩ | ⟨hfull, -⟩ | ⟨i, hi, -⟩ := hslots
    · rw [hfind] at hi
      cases hi
      rw [heq]
      refine ⟨rfl, by simp [hset], fun j => ?_⟩
      by_cases hj : j = ⟨n - 1, hlast⟩
      · subst hj
        exact iff_of_true (set2_self _ _ _ _) (show n - 1 < _ by omega)
      · have hne : j.val ≠ n - 1 := fun h => hj (Fin.ext h)
        dsimp only
        rw [set2_of_ne fun h => hj h.2, hrow j]
        omega
    · rw [hfind] at hfull
      cases hfull
    · rw [hfind] at hi
      cases hi

/-- A call that finds all marks set leaves the row. -/
theorem ReadMarks.Counts.requestRead_full {n : Nat} (h : s.Counts (W.readChannel addr) n)
    (hn : repeateLength < n) : (W.requestRead addr s).1 = .outOfRange repeateLength := by
  have hfind := h.findSlot
  rw [dif_neg (by omega)] at hfind
  rcases requestRead_cases W addr s with ⟨hclear, -⟩ |
    ⟨-, ⟨i, hi, -⟩ | ⟨hfull, -⟩ | ⟨i, hi, heq⟩⟩
  · have hset := h.1.mpr (by omega)
    rw [hclear] at hset
    cases hset
  · rw [hfind] at hi
    cases hi
  · rw [hfind] at hfull
    cases hfull
  · rw [hfind] at hi
    cases hi
    rw [heq]

/-! ## Sequences of calls -/

theorem callsFor_append (W : Wrapper σ) (ch : ChannelId) (addrs : List Addr) (addr : Addr) :
    W.callsFor ch (addrs ++ [addr]) =
      W.callsFor ch addrs + if ch = W.readChannel addr then 1 else 0 := by
  simp [Wrapper.callsFor, List.countP_append, List.countP_singleton, eq_comm]

theorem requestReads_append (W : Wrapper σ) (addrs : List Addr) (addr : Addr) (s₀ : ReadMarks β) :
    W.requestReads (addrs ++ [addr]) s₀ = (W.requestReads addrs s₀).bind fun s =>
      match W.requestRead addr s with
      | (.outOfRange _, _) => none
      | (_, s) => some s := by
  simp only [Wrapper.requestReads, List.foldlM_append, List.foldlM_cons, List.foldlM_nil,
    bind_pure]
  rfl

/-- What the calls so far have marked. -/
def Wrapper.Marked (W : Wrapper σ) (addrs : List Addr) (s : ReadMarks β) : Prop :=
  ∀ ch, s.Counts ch (W.callsFor ch addrs)

theorem Wrapper.Marked.requestRead (h : W.Marked addrs s)
    (hroom : W.callsFor (W.readChannel addr) addrs ≤ repeateLength) :
    (W.requestRead addr s).1 = .returned ∧ W.Marked (addrs ++ [addr]) (W.requestRead addr s).2 := by
  obtain ⟨hend, hcounts⟩ := (h (W.readChannel addr)).requestRead hroom
  refine ⟨hend, fun ch => ?_⟩
  rw [callsFor_append]
  by_cases hch : ch = W.readChannel addr
  · subst hch
    rw [if_pos rfl]
    exact hcounts
  · obtain ⟨hmark, hrow⟩ := requestRead_frame W addr s hch
    rw [if_neg hch, Nat.add_zero]
    unfold ReadMarks.Counts
    rw [hmark, hrow]
    exact h ch

/-- A sequence that stays in the rows has marked what it should. -/
theorem requestReads_marked {waiting : Addr → Option (Option β)}
    (h : W.requestReads addrs (.init waiting) = some s) : W.Marked addrs s := by
  induction addrs using List.reverseRecOn generalizing s with
  | nil =>
    cases h
    exact fun ch => ⟨by simp [ReadMarks.init, Wrapper.callsFor], by
      simp [ReadMarks.init, Wrapper.callsFor]⟩
  | append_singleton addrs addr ih =>
    rw [requestReads_append] at h
    obtain ⟨t, ht, hcall⟩ := Option.bind_eq_some_iff.mp h
    have hmarked := ih ht
    by_cases hroom : W.callsFor (W.readChannel addr) addrs ≤ repeateLength
    · obtain ⟨hend, hnext⟩ := hmarked.requestRead hroom
      split at hcall
      · cases hcall
      · rename_i r t' _ heq
        cases hcall
        rw [heq] at hnext
        exact hnext
    · have hfull := (hmarked _).requestRead_full (Nat.lt_of_not_le hroom)
      split at hcall
      · cases hcall
      · rename_i hne heq
        rw [heq] at hfull
        exact absurd hfull (hne _)

/-- As long as no channel is called for more often than it has marks, the calls stay in the rows. -/
theorem requestReads_isSome (waiting : Addr → Option (Option β))
    (h : ∀ ch, W.callsFor ch addrs ≤ repeateLength + 1) :
    ∃ s, W.requestReads addrs (.init waiting) = some s := by
  induction addrs using List.reverseRecOn with
  | nil => exact ⟨_, rfl⟩
  | append_singleton addrs addr ih =>
    have hlast := h (W.readChannel addr)
    rw [callsFor_append, if_pos rfl] at hlast
    have hroom : W.callsFor (W.readChannel addr) addrs ≤ repeateLength := by omega
    obtain ⟨t, ht⟩ := ih fun ch => by
      have hch := h ch
      rw [callsFor_append] at hch
      exact (Nat.le_add_right _ _).trans hch
    obtain ⟨hend, -⟩ := (requestReads_marked ht).requestRead hroom
    refine ⟨(W.requestRead addr t).2, ?_⟩
    rw [requestReads_append, ht, Option.bind_some]
    split
    · rename_i heq
      rw [heq] at hend
      cases hend
    · rename_i heq
      rw [heq]

/-- A channel that is called for more often than it has marks is called for with all marks set. -/
theorem exists_call_of_lt_callsFor {ch : ChannelId} {n : Nat} (h : n < W.callsFor ch addrs) :
    ∃ before addr after, addrs = before ++ addr :: after ∧ W.readChannel addr = ch ∧
      W.callsFor ch before = n := by
  induction addrs using List.reverseRecOn with
  | nil => cases h
  | append_singleton addrs addr ih =>
    by_cases hlt : n < W.callsFor ch addrs
    · obtain ⟨before, a, after, rfl, ha, hcount⟩ := ih hlt
      exact ⟨before, a, after ++ [addr], by simp, ha, hcount⟩
    · rw [callsFor_append] at h
      split at h
      · rename_i hch
        exact ⟨addrs, addr, [], rfl, hch.symm, by omega⟩
      · omega

/-- A call leaves the row if and only if all marks of its channel are set. -/
theorem Wrapper.Marked.readKept_iff (h : W.Marked addrs s) :
    W.ReadKept addrs addr s ↔ W.callsFor (W.readChannel addr) addrs ≤ repeateLength := by
  constructor
  · intro hkept
    by_contra hfull
    exact hkept.inRow _ ((h _).requestRead_full (Nat.lt_of_not_le hfull))
  · intro hroom
    obtain ⟨hend, hnext⟩ := h.requestRead hroom
    refine ⟨?_, fun ch hch => requestRead_frame W addr s hch, hnext, ?_⟩
    · intro i hi
      rw [hend] at hi
      cases hi
    · rw [hend]
      refine iff_of_false (fun ⟨what, hwhat⟩ => nomatch hwhat) ?_
      rintro ⟨hmark, hrow⟩
      -- the last slot of the row is not set
      have hpos := (h (W.readChannel addr)).1.mp hmark
      have hlast := ((h (W.readChannel addr)).2 ⟨repeateLength - 1, by decide⟩).mp (hrow _)
      dsimp only at hlast
      omega

/-- **Repeat slots.** All calls of a sequence stay in the row of their channel, change no other
channel, mark one slot after the other and throw when no slot is left, if and only if no channel is
called for more than 65 times: once for its entry in `channle_vld` and once for each slot. -/
theorem repeat_slots_iff (W : Wrapper σ) (waiting : Addr → Option (Option β)) (addrs : List Addr) :
    W.ReadsKept (.init waiting) addrs ↔ ∀ ch, W.callsFor ch addrs ≤ repeateLength + 1 := by
  constructor
  · intro h ch
    by_contra hmore
    obtain ⟨before, addr, after, heq, hch, hcount⟩ :=
      exists_call_of_lt_callsFor (Nat.lt_of_not_le hmore)
    obtain ⟨s, hs, hkept⟩ := h before addr after heq
    have hroom := (requestReads_marked hs).readKept_iff.mp hkept
    rw [hch, hcount] at hroom
    omega
  · rintro h before addr after rfl
    have hroom : ∀ ch, W.callsFor ch (before ++ [addr]) ≤ repeateLength + 1 := fun ch => by
      have hch := h ch
      simp only [Wrapper.callsFor, List.countP_append, List.countP_cons, List.countP_nil] at hch ⊢
      omega
    have hbefore : ∀ ch, W.callsFor ch before ≤ repeateLength + 1 := fun ch => by
      have hch := hroom ch
      rw [callsFor_append] at hch
      omega
    obtain ⟨s, hs⟩ := requestReads_isSome waiting hbefore
    refine ⟨s, hs, (requestReads_marked hs).readKept_iff.mpr ?_⟩
    have hch := hroom (W.readChannel addr)
    rw [callsFor_append, if_pos rfl] at hch
    omega

/-- With the mapping of `HBM2_4Gb_x128.ini`, sixty-six calls for the address 0: the last of them
uses the index 64 of a row of 64 slots. -/
theorem repeat_slots_overrun :
    let W := Wrapper.reporting ⟨6, 0, 3, by decide, by decide, by decide⟩
    let s₀ := ReadMarks.init fun _ => (none : Option (Option Unit))
    (∃ s, W.requestReads (List.replicate 65 0) s₀ = some s ∧
      (W.requestRead 0 s).1 = .outOfRange 64) ∧
    ¬ W.ReadsKept s₀ (List.replicate 66 0) := by
  intro W s₀
  have hcalls : W.callsFor (W.readChannel 0) (List.replicate 65 0) = 65 := by
    simp [Wrapper.callsFor]
  have hlast : ∀ {s}, W.requestReads (List.replicate 65 0) s₀ = some s →
      (W.requestRead 0 s).1 = .outOfRange 64 := fun hs =>
    (requestReads_marked hs _).requestRead_full (by rw [hcalls]; decide)
  constructor
  · obtain ⟨s, hs⟩ : ∃ s, W.requestReads (List.replicate 65 0) s₀ = some s :=
      requestReads_isSome _ fun ch => List.countP_le_length.trans (by simp [repeateLength])
    exact ⟨s, hs, hlast hs⟩
  · intro h
    obtain ⟨s, hs, hkept⟩ := h (List.replicate 65 0) 0 [] (by rw [← List.replicate_succ'])
    exact hkept.inRow 64 (hlast hs)

end NetSim.Dram
