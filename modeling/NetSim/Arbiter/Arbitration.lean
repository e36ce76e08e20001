import NetSim.Arbiter.Moves

/-!
# One bank in a round of arbitration

In a round a bank offers the heads of its read buffers in round-robin order and then those of its
write buffers, until one of them is taken. A refused offer changes nothing in the arbiter, so the
heads on offer are known when the turn of the bank begins (`arbitrateBank_eq`).
-/

namespace NetSim.Arbiter

open Common Library

variable {δ : Type} (c : Config) (P : Peers c.numUpstreams δ)

/-- The head of an input buffer. -/
structure Head where
  kind : Kind
  up : Nat
  pkt : Packet
deriving DecidableEq, Repr

/-- The heads of the buffers that the loop variable `k` reaches. -/
def heads (a : DramArb) (bank : Bank) (kind : Kind) (ks : List Nat) : List Head :=
  ks.filterMap fun k =>
    let up := (a.rrIdx kind bank + k) % c.numUpstreams
    (a.inBufs kind bank up).head?.map fun pkt => ⟨kind, up, pkt⟩

/-- The heads that a bank has on offer, in the order in which they are tried. -/
def offers (a : DramArb) (bank : Bank) : List Head :=
  heads c a bank .read (List.range c.numUpstreams) ++
    heads c a bank .write (List.range c.numUpstreams)

/-- The world after a request was offered. -/
def offered (bank : Bank) (pkt : Packet) (w : World δ) : Bool × World δ :=
  let r := P.sendTimingReq bank pkt w.rest
  (r.1, { w.note (.sendReq bank pkt r.1) with rest := r.2 })

/-- Offer heads one after the other until one is taken. -/
def offerAll (bank : Bank) : List Head → World δ → Bool × World δ
  | [], w => (false, w)
  | h :: hs, w =>
    let r := offered c P bank h.pkt w
    if r.1 then (true, r.2.setArb (r.2.arb.popInBuf c h.kind bank h.up)) else offerAll bank hs r.2

/-- The head that the downstream takes when heads are offered to it one after the other. -/
def takenHead (bank : Bank) : List Head → δ → Option Head
  | [], _ => none
  | h :: hs, d =>
    let r := P.sendTimingReq bank h.pkt d
    if r.1 then some h else takenHead bank hs r.2

variable {c P} {bank b : Bank} {w : World δ}

theorem arbitrateRequests_eq (kind : Kind) (bank : Bank) (ks : List Nat) (w : World δ) :
    arbitrateRequests c P kind bank ks w = offerAll c P bank (heads c w.arb bank kind ks) w := by
  induction ks generalizing w with
  | nil => rfl
  | cons k ks ih =>
    simp only [arbitrateRequests, heads, List.filterMap_cons]
    cases hbuf : w.arb.inBufs kind bank ((w.arb.rrIdx kind bank + k) % c.numUpstreams) with
    | nil =>
      simp only [List.head?_nil, Option.map_none]
      exact ih w
    | cons pkt rest =>
      simp only [List.head?_cons, Option.map_some, offerAll, offered]
      rw [ih]
      rfl

theorem offerAll_arb {hs : List Head} (h : (offerAll c P bank hs w).1 = false) :
    (offerAll c P bank hs w).2.arb = w.arb := by
  induction hs generalizing w with
  | nil => rfl
  | cons head hs ih =>
    simp only [offerAll] at h ⊢
    split at h
    · cases h
    · rename_i hrefused
      rw [if_neg hrefused]
      exact ih h

theorem offerAll_taken {hs : List Head} {head : Head}
    (h : takenHead c P bank hs w.rest = some head) :
    head ∈ hs ∧ (offerAll c P bank hs w).2.arb = w.arb.popInBuf c head.kind bank head.up := by
  induction hs generalizing w with
  | nil => cases h
  | cons first hs ih =>
    cases hanswer : (P.sendTimingReq bank first.pkt w.rest).1 with
    | true =>
      simp only [takenHead, hanswer, if_true, Option.some.injEq] at h
      subst h
      simp [offerAll, offered, hanswer, World.setArb, World.note]
    | false =>
      simp only [takenHead, hanswer, Bool.false_eq_true, if_false] at h
      simp only [offerAll, offered, hanswer, Bool.false_eq_true, if_false]
      obtain ⟨hmem, harb⟩ := ih (w := (offered c P bank first.pkt w).2) h
      rw [offered, hanswer] at harb
      exact ⟨List.mem_cons_of_mem _ hmem, harb⟩

theorem offerAll_append (hs hs' : List Head) (w : World δ) :
    offerAll c P bank (hs ++ hs') w =
      if (offerAll c P bank hs w).1 then offerAll c P bank hs w
      else offerAll c P bank hs' (offerAll c P bank hs w).2 := by
  induction hs generalizing w with
  | nil => rfl
  | cons head hs ih =>
    simp only [List.cons_append, offerAll]
    split
    · rfl
    · exact ih _

/-- The turn of a bank. -/
theorem arbitrateBank_eq (bank : Bank) (w : World δ) :
    arbitrateBank c P bank w = offerAll c P bank (offers c w.arb bank) w := by
  have hread : arbitrateReadRequests c P bank w = offerAll c P bank
      (heads c w.arb bank .read (List.range c.numUpstreams)) w := arbitrateRequests_eq ..
  rw [offers, offerAll_append, ← hread]
  unfold arbitrateBank
  simp only
  split
  · rfl
  · rename_i hsent
    have harb : (arbitrateReadRequests c P bank w).2.arb = w.arb := by
      rw [hread] at hsent ⊢
      exact offerAll_arb (by simpa using hsent)
    rw [← harb]
    exact arbitrateRequests_eq ..

theorem offerAll_fst (hs : List Head) (w : World δ) :
    (offerAll c P bank hs w).1 = (takenHead c P bank hs w.rest).isSome := by
  induction hs generalizing w with
  | nil => rfl
  | cons head hs ih =>
    cases hanswer : (P.sendTimingReq bank head.pkt w.rest).1 with
    | true => simp [offerAll, takenHead, offered, hanswer]
    | false => simp [offerAll, takenHead, offered, hanswer, ih]

/-- The round after the turn of a bank. -/
theorem arbitrateStep_eq (r : Round δ) (bank : Bank) :
    arbitrateStep c P r bank =
      { hasPending := checkPendingRequests c
          (offerAll c P bank (offers c r.world.arb bank) r.world).2.arb bank
        needResched := r.needResched ||
          !(takenHead c P bank (offers c r.world.arb bank) r.world.rest).isSome
        world := (offerAll c P bank (offers c r.world.arb bank) r.world).2 } := by
  rw [← offerAll_fst, ← arbitrateBank_eq]
  rfl

/-- Every head on offer is the head of a buffer of an existing upstream. -/
theorem mem_offers {a : DramArb} {h : Head} (hmem : h ∈ offers c a bank) :
    h.up < c.numUpstreams ∧ ∃ rest, a.inBufs h.kind bank h.up = h.pkt :: rest := by
  have hheads (kind : Kind) (hk : h ∈ heads c a bank kind (List.range c.numUpstreams)) :
      h.up < c.numUpstreams ∧ ∃ rest, a.inBufs h.kind bank h.up = h.pkt :: rest := by
    obtain ⟨k, -, hsome⟩ := List.mem_filterMap.mp hk
    obtain ⟨pkt, hhead, rfl⟩ := Option.map_eq_some_iff.mp hsome
    exact ⟨Nat.mod_lt _ c.numUpstreams_pos, List.head?_eq_some_iff.mp hhead⟩
  rcases List.mem_append.mp hmem with hk | hk
  · exact hheads .read hk
  · exact hheads .write hk

end NetSim.Arbiter
