import NetSim.Arbiter.Arbitration
import NetSim.Library.RoundRobin

/-!
# The request path

Requests wait in the buffer of their bank and upstream until the downstream takes them. The log of
the ports says which packet was offered on which bank, but not which buffer it came from; a run is
therefore kept together with the offers made so far, latest first. What was sent from a buffer,
followed by what is in it, is what was accepted into it (`Fifo`).
-/

namespace NetSim.Arbiter

open Common Library Relation

/-- A call of `requestPorts[bank].sendTimingReq` for the head of a buffer, with the answer. -/
structure Offer where
  bank : Bank
  head : Head
  taken : Bool
deriving DecidableEq, Repr

def Offer.event (o : Offer) : PortEvent := .sendReq o.bank o.head.pkt o.taken

section Definitions

variable {δ : Type} (c : Config) (P : Peers c.numUpstreams δ)

/-- The offers that are made when heads are offered one after the other until one is taken. -/
def offersMade (bank : Bank) : List Head → δ → List Offer
  | [], _ => []
  | h :: hs, d =>
    let r := P.sendTimingReq bank h.pkt d
    if r.1 then [⟨bank, h, true⟩] else offersMade bank hs r.2 ++ [⟨bank, h, false⟩]

/-- The offers in the turn of a bank. -/
def turnOffers (r : Round δ) (bank : Bank) : List Offer :=
  offersMade c P bank (offers c r.world.arb bank) r.world.rest

/-- The offers in the turns of several banks. -/
def roundOffers : List Bank → Round δ → List Offer
  | [], _ => []
  | bank :: rest, r => roundOffers rest (arbitrateStep c P r bank) ++ turnOffers c P r bank

/-- The offers of a step. -/
def stepOffers (w : World δ) : Action c.numUpstreams δ → List Offer
  | .arbitrate => roundOffers c P banks ⟨false, false, w.clearArbEvent⟩
  | _ => []

/-- A run with the offers that were made in it. -/
structure Offering (δ : Type) where
  world : World δ
  made : List Offer

def Offering.step (s : Offering δ) (action : Action c.numUpstreams δ) : Option (Offering δ) :=
  (Arbiter.step c P s.world action).map fun w => ⟨w, stepOffers c P s.world action ++ s.made⟩

omit c P in
/-- A run that starts here. -/
def Offering.start (w : World δ) : Offering δ := ⟨w, []⟩

end Definitions

/-! ## What passed through a buffer, oldest first -/

/-- The buffers that hold a packet. -/
def kindOf (pkt : Packet) : Kind := if pkt.isRead then .read else .write

def PortEvent.acceptedFrom (kind : Kind) (bank : Bank) (up : Nat) : PortEvent → List Packet
  | .request b u pkt true => if kindOf pkt = kind ∧ b = bank ∧ u = up then [pkt] else []
  | _ => []

/-- The requests that were accepted from an upstream on a bank. -/
def acceptedFrom (kind : Kind) (bank : Bank) (up : Nat) : Log → List Packet
  | [] => []
  | e :: log => acceptedFrom kind bank up log ++ e.acceptedFrom kind bank up

/-- The requests of an upstream that were sent on a bank. -/
def sentFrom (kind : Kind) (bank : Bank) (up : Nat) : List Offer → List Packet
  | [] => []
  | o :: made => sentFrom kind bank up made ++
      if o.taken ∧ o.head.kind = kind ∧ o.bank = bank ∧ o.head.up = up then [o.head.pkt] else []

/-- The offers that the log records. -/
def PortEvent.isSendReq : PortEvent → Bool
  | .sendReq .. => true
  | _ => false

/-- What was sent from a buffer, followed by what is in it, is what was accepted into it. -/
def Fifo (a : DramArb) (log : Log) (made : List Offer) : Prop :=
  ∀ kind bank up, sentFrom kind bank up made ++ a.inBufs kind bank up =
    acceptedFrom kind bank up log

variable {δ : Type} {c : Config} {P : Peers c.numUpstreams δ} {s s' : Core} {w w' : World δ}
variable {bank : Bank}

theorem sentFrom_append (kind : Kind) (bank : Bank) (up : Nat) (recent made : List Offer) :
    sentFrom kind bank up (recent ++ made) =
      sentFrom kind bank up made ++ sentFrom kind bank up recent := by
  induction recent with
  | nil => simp [sentFrom]
  | cons o recent ih => simp [sentFrom, ih]

theorem acceptedFrom_offers (kind : Kind) (bank : Bank) (up : Nat) (made : List Offer) (log : Log) :
    acceptedFrom kind bank up (made.map Offer.event ++ log) = acceptedFrom kind bank up log := by
  induction made with
  | nil => rfl
  | cons o made ih => simp [acceptedFrom, PortEvent.acceptedFrom, Offer.event, ih]

/-! ## The turn of a bank -/

theorem offerAll_events (hs : List Head) (w : World δ) :
    (offerAll c P bank hs w).2.log = (offersMade c P bank hs w.rest).map Offer.event ++ w.log := by
  induction hs generalizing w with
  | nil => rfl
  | cons h hs ih =>
    cases hanswer : (P.sendTimingReq bank h.pkt w.rest).1 with
    | true =>
      simp [offerAll, offered, offersMade, hanswer, World.note, World.setArb, Offer.event]
    | false =>
      have hrest := ih (offered c P bank h.pkt w).2
      simpa [offerAll, offered, offersMade, hanswer, World.note, Offer.event] using hrest

/-- Refused heads, and then the one that is taken. -/
theorem offersMade_cases (bank : Bank) (hs : List Head) (d : δ) :
    (takenHead c P bank hs d = none ∧
      offersMade c P bank hs d = (hs.map fun h => ⟨bank, h, false⟩).reverse) ∨
    ∃ refused h untried, takenHead c P bank hs d = some h ∧ hs = refused ++ h :: untried ∧
      offersMade c P bank hs d =
        ⟨bank, h, true⟩ :: (refused.map fun h => ⟨bank, h, false⟩).reverse := by
  induction hs generalizing d with
  | nil => exact Or.inl ⟨rfl, rfl⟩
  | cons h hs ih =>
    cases hanswer : (P.sendTimingReq bank h.pkt d).1 with
    | true =>
      refine Or.inr ⟨[], h, hs, ?_, rfl, ?_⟩
      · simp [takenHead, hanswer]
      · simp [offersMade, hanswer]
    | false =>
      rcases ih (P.sendTimingReq bank h.pkt d).2 with
        ⟨hnone, hmade⟩ | ⟨refused, t, rest, ht, rfl, hm⟩
      · refine Or.inl ⟨?_, ?_⟩
        · simpa [takenHead, hanswer] using hnone
        · simp [offersMade, hanswer, hmade]
      · refine Or.inr ⟨h :: refused, t, rest, ?_, rfl, ?_⟩
        · simpa [takenHead, hanswer] using ht
        · simp [offersMade, hanswer, hm]

/-- What the turn of a bank does: heads are refused without effect, and at most one is taken. -/
inductive Turn (c : Config) (bank : Bank) (a : DramArb) : DramArb → List Offer → Prop
  | refused : Turn c bank a a ((offers c a bank).map fun h => ⟨bank, h, false⟩).reverse
  | taken {refused untried : List Head} {h : Head}
      (hoffers : offers c a bank = refused ++ h :: untried) :
      Turn c bank a (a.popInBuf c h.kind bank h.up)
        (⟨bank, h, true⟩ :: (refused.map fun h => ⟨bank, h, false⟩).reverse)

theorem arbitrateStep_turn (r : Round δ) (bank : Bank) :
    Turn c bank r.world.arb (arbitrateStep c P r bank).world.arb (turnOffers c P r bank) := by
  rw [arbitrateStep_eq, turnOffers]
  rcases offersMade_cases (c := c) (P := P) bank (offers c r.world.arb bank) r.world.rest with
    ⟨hnone, hmade⟩ | ⟨refused, h, untried, htaken, hoffers, hmade⟩
  · have hfst : (offerAll c P bank (offers c r.world.arb bank) r.world).1 = false := by
      rw [offerAll_fst, hnone, Option.isSome_none]
    have harb := offerAll_arb hfst
    rw [hmade]
    dsimp only
    rw [harb]
    exact .refused
  · obtain ⟨-, harb⟩ := offerAll_taken (w := r.world) htaken
    rw [hmade]
    dsimp only
    rw [harb]
    exact .taken hoffers

theorem arbitrateStep_events (r : Round δ) (bank : Bank) :
    (arbitrateStep c P r bank).world.log =
      (turnOffers c P r bank).map Offer.event ++ r.world.log := by
  rw [arbitrateStep_eq]
  exact offerAll_events _ _

theorem sentFrom_refused (kind : Kind) (b : Bank) (up : Nat) (bank : Bank) (hs : List Head) :
    sentFrom kind b up (hs.map fun h => ⟨bank, h, false⟩).reverse = [] := by
  induction hs with
  | nil => rfl
  | cons h hs ih => simp [sentFrom_append, sentFrom, ih]

/-- The turn of a bank keeps what passed through the buffers. -/
theorem Turn.fifo {a a' : DramArb} {turn made : List Offer} {log : Log}
    (h : Turn c bank a a' turn) (hfifo : Fifo a log made) :
    Fifo a' (turn.map Offer.event ++ log) (turn ++ made) := by
  intro kind b up
  rw [acceptedFrom_offers, sentFrom_append, ← hfifo kind b up]
  cases h with
  | refused => rw [sentFrom_refused, List.append_nil]
  | @taken refused untried h hoffers =>
    have hmem : h ∈ offers c a bank := by simp [hoffers]
    obtain ⟨-, rest, hhead⟩ := mem_offers hmem
    rw [sentFrom, sentFrom_refused, DramArb.popInBuf_inBufs]
    by_cases hbuf : kind = h.kind ∧ b = bank ∧ up = h.up
    · obtain ⟨rfl, rfl, rfl⟩ := hbuf
      simp [hhead]
    · have hother : ¬ (h.kind = kind ∧ bank = b ∧ h.up = up) := by
        rintro ⟨rfl, rfl, rfl⟩
        exact hbuf ⟨rfl, rfl, rfl⟩
      simp [hbuf, hother]

/-! ## Steps that offer nothing -/

/-- A move that adds no offer to the log. -/
def Silent (c : Config) (s s' : Core) : Prop :=
  Move c s s' ∧ ∀ bank pkt taken, s'.log ≠ .sendReq bank pkt taken :: s.log

theorem RespMove.silent (h : RespMove c s s') : Silent c s s' := by
  refine ⟨.resp h, fun bank pkt taken => ?_⟩
  cases h with
  | requested h =>
    cases h with
    | accept => simp
    | refuse => simp
  | delivered => simp
  | bounced => simp
  | retried => simp
  | cleared => simp
  | event => simp

theorem step_silent {action : Action c.numUpstreams δ} (h : step c P w action = some w')
    (haction : action ≠ .arbitrate) : ReflTransGen (Silent c) w.toCore w'.toCore := by
  have hresp : ∀ {s s' : Core}, RespMoves c s s' → ReflTransGen (Silent c) s s' := fun h =>
    h.lift id fun _ _ hmove => hmove.silent
  cases action with
  | request bank up pkt =>
    cases h
    exact hresp (.single (.requested (recvTimingReqUp_requested up.isLt w)))
  | arbitrate => exact absurd rfl haction
  | sendResponse =>
    obtain ⟨-, rfl⟩ := step_sendResponse h
    exact hresp (.head .event (sendResponse_moves w.clearSendResponseEvent))
  | response bank pkt =>
    obtain ⟨resPkt, reads, up, ups, hread, hcredit, hup, rfl⟩ :=
      recvTimingResp_cases (step_response h)
    rw [accessAndRespond, scheduleSendResponseEvent_core]
    exact .head ⟨.response hread hcredit hup, by simp⟩ (.single (RespMove.silent .event))
  | reqRetry bank =>
    cases h
    rw [handleReqRetry, scheduleArbEvent_core]
    exact .head ⟨.reqRetry, by simp⟩ (.single ⟨.arb .event, by simp [World.note]⟩)
  | respRetry bank up =>
    cases h
    exact .head ⟨.respRetry, by simp⟩ (hresp (sendResponse_moves (w.clearRetryResp bank up)))
  | rest d =>
    cases h
    exact .refl

/-- A push appends to the buffer what the log then says was accepted into it. -/
theorem pushInBuf_acceptedFrom (a : DramArb) (kind : Kind) (bank b : Bank) (up u : Nat)
    (pkt : Packet) :
    (a.pushInBuf (kindOf pkt) bank up pkt).inBufs kind b u =
      a.inBufs kind b u ++ (PortEvent.request bank up pkt true).acceptedFrom kind b u := by
  rw [DramArb.pushInBuf_inBufs, PortEvent.acceptedFrom]
  by_cases hbuf : kind = kindOf pkt ∧ b = bank ∧ u = up
  · obtain ⟨rfl, rfl, rfl⟩ := hbuf
    simp
  · have hother : ¬ (kindOf pkt = kind ∧ bank = b ∧ up = u) := by
      rintro ⟨rfl, rfl, rfl⟩
      exact hbuf ⟨rfl, rfl, rfl⟩
    rw [if_neg hbuf, if_neg hother, List.append_nil]

theorem Requested.fifo {made : List Offer} (h : Requested c s s') (hfifo : Fifo s.arb s.log made) :
    Fifo s'.arb s'.log made := by
  intro kind b up
  have hbefore := hfifo kind b up
  cases h with
  | refuse => simpa [acceptedFrom, PortEvent.acceptedFrom, DramArb.setRetryReq] using hbefore
  | @accept a a' log bank u pkt hup h =>
    have hpush : a'.inBufs kind b up = (a.pushInBuf (kindOf pkt) bank u pkt).inBufs kind b up := by
      obtain ⟨hread, -, rfl⟩ | ⟨hwrite, -, rfl⟩ := acceptRequest_cases h
      · simp [kindOf, hread, DramArb.recordRead]
      · simp [kindOf, hwrite]
    dsimp only
    rw [acceptedFrom, ← hbefore, List.append_assoc, hpush, pushInBuf_acceptedFrom]

/-- Moves that offer nothing keep what passed through the buffers. -/
theorem Silent.fifo {made : List Offer} (h : Silent c s s') (hfifo : Fifo s.arb s.log made) :
    Fifo s'.arb s'.log made := by
  obtain ⟨hmove, hlog⟩ := h
  -- no other move touches the buffers or accepts a request
  have hquiet : s'.arb.inBufs = s.arb.inBufs →
      (∀ kind bank up, acceptedFrom kind bank up s'.log = acceptedFrom kind bank up s.log) →
      Fifo s'.arb s'.log made := by
    intro hbufs haccepted kind bank up
    rw [hbufs, haccepted, hfifo kind bank up]
  cases hmove with
  | resp h =>
    cases h with
    | requested h => exact h.fifo hfifo
    | delivered => exact hquiet rfl fun _ _ _ => List.append_nil _
    | bounced => exact hquiet rfl fun _ _ _ => List.append_nil _
    | retried => exact hquiet rfl fun _ _ _ => List.append_nil _
    | cleared => exact hquiet rfl fun _ _ _ => rfl
    | event => exact hquiet rfl fun _ _ _ => rfl
  | arb h =>
    cases h with
    | offered h =>
      cases h with
      | refused => exact absurd rfl (hlog _ _ _)
      | taken => exact absurd rfl (hlog _ _ _)
    | event => exact hquiet rfl fun _ _ _ => rfl
  | respRetry => exact hquiet rfl fun _ _ _ => List.append_nil _
  | reqRetry => exact hquiet rfl fun _ _ _ => List.append_nil _
  | response => exact hquiet rfl fun _ _ _ => List.append_nil _

/-! ## A round -/

theorem roundOffers_events (bs : List Bank) (r : Round δ) :
    (bs.foldl (arbitrateStep c P) r).world.log =
      (roundOffers c P bs r).map Offer.event ++ r.world.log := by
  induction bs generalizing r with
  | nil => rfl
  | cons bank bs ih =>
    rw [List.foldl_cons, ih, arbitrateStep_events, roundOffers, List.map_append, List.append_assoc]

theorem roundOffers_fifo (bs : List Bank) (r : Round δ) {made : List Offer}
    (h : Fifo r.world.arb r.world.log made) :
    Fifo (bs.foldl (arbitrateStep c P) r).world.arb (bs.foldl (arbitrateStep c P) r).world.log
      (roundOffers c P bs r ++ made) := by
  induction bs generalizing r made with
  | nil => exact h
  | cons bank bs ih =>
    rw [List.foldl_cons, roundOffers, List.append_assoc]
    apply ih
    rw [arbitrateStep_events]
    exact (arbitrateStep_turn r bank).fifo h

theorem mem_heads {a : DramArb} {kind : Kind} {up : Nat} {pkt : Packet} {rest : List Packet}
    (hup : up < c.numUpstreams) (hbuf : a.inBufs kind bank up = pkt :: rest) :
    ⟨kind, up, pkt⟩ ∈ heads c a bank kind (List.range c.numUpstreams) := by
  refine List.mem_filterMap.mpr
    ⟨scanDist c.numUpstreams (a.rrIdx kind bank) up, List.mem_range.mpr ?_, ?_⟩
  · exact scanDist_lt (by omega)
  · simp [add_scanDist_mod hup, hbuf]

theorem kind_of_mem_heads {a : DramArb} {kind : Kind} {ks : List Nat} {h : Head}
    (hmem : h ∈ heads c a bank kind ks) : h.kind = kind := by
  obtain ⟨k, -, hsome⟩ := List.mem_filterMap.mp hmem
  obtain ⟨pkt, -, rfl⟩ := Option.map_eq_some_iff.mp hsome
  rfl

section Turn

variable {a a' : DramArb} {turn : List Offer}

theorem Turn.bank_eq (h : Turn c bank a a' turn) {o : Offer} (ho : o ∈ turn) : o.bank = bank := by
  cases h with
  | refused =>
    obtain ⟨head, -, rfl⟩ := List.mem_map.mp (List.mem_reverse.mp ho)
    rfl
  | taken =>
    rcases List.mem_cons.mp ho with rfl | ho
    · rfl
    · obtain ⟨head, -, rfl⟩ := List.mem_map.mp (List.mem_reverse.mp ho)
      rfl

/-- At most one head is taken. -/
theorem Turn.taken_le_one (h : Turn c bank a a' turn) : turn.countP (·.taken) ≤ 1 := by
  cases h with
  | refused => simp [List.countP_reverse, List.countP_map, Function.comp_def]
  | taken => simp [List.countP_reverse, List.countP_map, Function.comp_def]

theorem Turn.inBufs_of_ne {b : Bank} (h : Turn c bank a a' turn) (hb : b ≠ bank) (kind : Kind)
    (up : Nat) : a'.inBufs kind b up = a.inBufs kind b up := by
  cases h with
  | refused => rfl
  | taken => rw [DramArb.popInBuf_inBufs, if_neg fun hbuf => hb hbuf.2.1]

/-- A write is taken only after the head of every read buffer was refused. -/
theorem Turn.reads_refused (h : Turn c bank a a' turn) {o : Offer} (ho : o ∈ turn)
    (htaken : o.taken = true) (hwrite : o.head.kind = .write) {up : Nat} {pkt : Packet}
    {rest : List Packet} (hup : up < c.numUpstreams) (hbuf : a.inBufs .read bank up = pkt :: rest) :
    ⟨bank, ⟨.read, up, pkt⟩, false⟩ ∈ turn := by
  cases h with
  | refused =>
    obtain ⟨head, -, rfl⟩ := List.mem_map.mp (List.mem_reverse.mp ho)
    cases htaken
  | @taken refused untried h hoffers =>
    have hhead : h.kind = .write := by
      rcases List.mem_cons.mp ho with rfl | ho
      · exact hwrite
      · obtain ⟨head, -, rfl⟩ := List.mem_map.mp (List.mem_reverse.mp ho)
        cases htaken
    -- the reads are offered before the writes, so all of them stand before the write
    suffices hmem : ⟨.read, up, pkt⟩ ∈ refused by
      exact List.mem_cons_of_mem _ (List.mem_reverse.mpr (List.mem_map.mpr ⟨_, hmem, rfl⟩))
    have hread := mem_heads hup hbuf
    rcases List.append_eq_append_iff.mp hoffers with ⟨t, rfl, -⟩ | ⟨t, hreads, hrest⟩
    · exact List.mem_append_left _ hread
    · cases t with
      | nil => simpa [hreads] using hread
      | cons x t =>
        obtain ⟨rfl, -⟩ := List.cons.inj hrest
        have hkind : h.kind = .read := kind_of_mem_heads (by rw [hreads]; simp)
        rw [hhead] at hkind
        cases hkind

end Turn

/-- The offers of a bank are those of its own turn. -/
theorem bank_mem_of_roundOffers {bs : List Bank} {r : Round δ} {o : Offer}
    (ho : o ∈ roundOffers c P bs r) : o.bank ∈ bs := by
  induction bs generalizing r with
  | nil => cases ho
  | cons bank bs ih =>
    rcases List.mem_append.mp ho with ho | ho
    · exact List.mem_cons_of_mem _ (ih ho)
    · rw [(arbitrateStep_turn r bank).bank_eq ho]
      exact List.mem_cons_self

theorem roundOffers_taken_le_one {bs : List Bank} (hbs : bs.Nodup) (r : Round δ) (b : Bank) :
    (roundOffers c P bs r).countP (fun o => o.taken ∧ o.bank = b) ≤ 1 := by
  induction bs generalizing r with
  | nil => exact Nat.zero_le _
  | cons bank bs ih =>
    obtain ⟨hnot, hrest⟩ := List.nodup_cons.mp hbs
    rw [roundOffers, List.countP_append]
    by_cases hb : b = bank
    · have hlater : (roundOffers c P bs (arbitrateStep c P r bank)).countP
          (fun o => o.taken ∧ o.bank = b) = 0 := by
        rw [List.countP_eq_zero]
        intro o ho hp
        have hmem := bank_mem_of_roundOffers ho
        simp only [decide_eq_true_eq] at hp
        rw [hp.2, hb] at hmem
        exact hnot hmem
      have hturn : (turnOffers c P r bank).countP (fun o => o.taken ∧ o.bank = b) ≤ 1 := by
        refine Nat.le_trans (List.countP_mono_left fun o _ hp => ?_)
          (arbitrateStep_turn r bank).taken_le_one
        simp only [decide_eq_true_eq] at hp
        exact hp.1
      omega
    · have hturn : (turnOffers c P r bank).countP (fun o => o.taken ∧ o.bank = b) = 0 := by
        rw [List.countP_eq_zero]
        intro o ho hp
        simp only [decide_eq_true_eq] at hp
        rw [(arbitrateStep_turn r bank).bank_eq ho] at hp
        exact hb hp.2.symm
      have hlater := ih hrest (arbitrateStep c P r bank)
      omega

theorem roundOffers_reads_refused {bs : List Bank} (hbs : bs.Nodup) {r : Round δ} {o : Offer}
    (ho : o ∈ roundOffers c P bs r) (htaken : o.taken = true) (hwrite : o.head.kind = .write)
    {up : Nat} {pkt : Packet} {rest : List Packet} (hup : up < c.numUpstreams)
    (hbuf : r.world.arb.inBufs .read o.bank up = pkt :: rest) :
    ⟨o.bank, ⟨.read, up, pkt⟩, false⟩ ∈ roundOffers c P bs r := by
  induction bs generalizing r with
  | nil => cases ho
  | cons bank bs ih =>
    obtain ⟨hnot, hrest⟩ := List.nodup_cons.mp hbs
    have hturn := arbitrateStep_turn (c := c) (P := P) r bank
    rcases List.mem_append.mp ho with ho | ho
    · have hne : o.bank ≠ bank := fun h => hnot (h ▸ bank_mem_of_roundOffers ho)
      refine List.mem_append_left _ (ih hrest ho ?_)
      rw [hturn.inBufs_of_ne hne, hbuf]
    · have hbank := hturn.bank_eq ho
      rw [hbank] at hbuf ⊢
      exact List.mem_append_right _ (hturn.reads_refused ho htaken hwrite hup hbuf)

/-! ## Runs -/

theorem Move.log_cases (h : Move c s s') : s'.log = s.log ∨ ∃ e, s'.log = e :: s.log := by
  cases h with
  | resp h =>
    cases h with
    | requested h => cases h <;> exact Or.inr ⟨_, rfl⟩
    | delivered => exact Or.inr ⟨_, rfl⟩
    | bounced => exact Or.inr ⟨_, rfl⟩
    | retried => exact Or.inr ⟨_, rfl⟩
    | cleared => exact Or.inl rfl
    | event => exact Or.inl rfl
  | arb h =>
    cases h with
    | offered h => cases h <;> exact Or.inr ⟨_, rfl⟩
    | event => exact Or.inl rfl
  | respRetry => exact Or.inr ⟨_, rfl⟩
  | reqRetry => exact Or.inr ⟨_, rfl⟩
  | response => exact Or.inr ⟨_, rfl⟩

theorem Silent.sendReqs (h : Silent c s s') :
    s'.log.filter PortEvent.isSendReq = s.log.filter PortEvent.isSendReq := by
  obtain ⟨hmove, hlog⟩ := h
  rcases hmove.log_cases with hsame | ⟨e, hcons⟩
  · rw [hsame]
  · rw [hcons]
    cases e with
    | sendReq bank pkt taken => exact absurd hcons (hlog bank pkt taken)
    | request | reqRetry | response | sendResp | respRetry | retryReq => rfl

theorem filter_events (made : List Offer) (log : Log) :
    (made.map Offer.event ++ log).filter PortEvent.isSendReq =
      made.map Offer.event ++ log.filter PortEvent.isSendReq := by
  induction made with
  | nil => rfl
  | cons o made ih =>
    rw [List.map_cons, List.cons_append, List.cons_append, List.filter_cons_of_pos rfl, ih]

/-- The offers are those of the log, and the buffers are what they leave. -/
def Offering.Good (s : Offering δ) : Prop :=
  s.made.map Offer.event = s.world.log.filter PortEvent.isSendReq ∧
    Fifo s.world.arb s.world.log s.made

theorem Offering.step_good {s s' : Offering δ} {action : Action c.numUpstreams δ}
    (h : Offering.step c P s action = some s') (hs : s.Good) : s'.Good := by
  obtain ⟨w, hstep, rfl⟩ := Option.map_eq_some_iff.mp h
  obtain ⟨hevents, hfifo⟩ := hs
  by_cases haction : action = .arbitrate
  · subst haction
    obtain ⟨-, rfl⟩ := step_arbitrate hstep
    let r : Round δ := ⟨false, false, s.world.clearArbEvent⟩
    have hlog := roundOffers_events (c := c) (P := P) banks r
    have hround : Fifo r.world.arb r.world.log s.made := hfifo
    have hfifo' := roundOffers_fifo (P := P) banks r hround
    have hcore := arbitrate_core (P := P) s.world.clearArbEvent
    refine ⟨?_, ?_⟩
    · dsimp only [stepOffers]
      rw [hcore, List.map_append, hevents]
      refine Eq.trans (filter_events _ _).symm ?_
      exact congrArg _ hlog.symm
    · dsimp only [stepOffers]
      rw [hcore]
      exact hfifo'
  · have hsilent := step_silent hstep haction
    have hnone : stepOffers c P s.world action = [] := by
      cases action with
      | arbitrate => exact absurd rfl haction
      | request | sendResponse | response | reqRetry | respRetry | rest => rfl
    rw [hnone, List.nil_append]
    exact star_invariant (I := fun t => s.made.map Offer.event =
        t.log.filter PortEvent.isSendReq ∧ Fifo t.arb t.log s.made)
      (fun _ _ hmove ht => ⟨ht.1.trans hmove.sendReqs.symm, hmove.fifo ht.2⟩) hsilent
      ⟨hevents, hfifo⟩

theorem Offering.reach_good {d : δ} {s : Offering δ}
    (h : Reach (Steps (Offering.step c P)) Free (.start (World.init d)) s) : s.Good := by
  refine h.invariant Offering.Good ⟨rfl, fun kind bank up => rfl⟩ ?_
  intro s action s' _ hs _ hstep
  exact Offering.step_good hstep hs

/-- **The request path.** In every state of every run the offers made are those of the log, and for
every bank and upstream, and for reads as for writes: what was sent from the buffer, followed by
what is in it, is what was accepted into it. In the turn of a bank, refused offers leave the buffers
and the pointers as they are, and a head that is taken leaves its own buffer and moves its own
pointer only. A round sends at most one request of each bank, and a write only when the head of
every read buffer of that bank that is not empty was refused in the same round. -/
theorem request_path_fifo {d : δ} {s : Offering δ}
    (h : Reach (Steps (Offering.step c P)) Free (.start (World.init d)) s) :
    s.made.map Offer.event = s.world.log.filter PortEvent.isSendReq ∧
      (∀ kind bank up, sentFrom kind bank up s.made ++ s.world.arb.inBufs kind bank up =
        acceptedFrom kind bank up s.world.log) ∧
      (∀ r bank, Turn c bank r.world.arb (arbitrateStep c P r bank).world.arb
        (turnOffers c P r bank)) ∧
      ∀ s', Offering.step c P s .arbitrate = some s' → ∃ round, s'.made = round ++ s.made ∧
        s'.world.log = round.map Offer.event ++ s.world.log ∧
        (∀ bank, round.countP (fun o => o.taken ∧ o.bank = bank) ≤ 1) ∧
        ∀ o ∈ round, o.taken = true → o.head.kind = .write → ∀ up, up < c.numUpstreams →
          ∀ pkt rest, s.world.arb.readInBufs o.bank up = pkt :: rest →
            ⟨o.bank, ⟨.read, up, pkt⟩, false⟩ ∈ round := by
  obtain ⟨hevents, hfifo⟩ := Offering.reach_good h
  refine ⟨hevents, hfifo, arbitrateStep_turn, fun s' hstep => ?_⟩
  obtain ⟨w, hround, rfl⟩ := Option.map_eq_some_iff.mp hstep
  obtain ⟨-, rfl⟩ := step_arbitrate hround
  have hbanks : banks.Nodup := List.nodup_finRange _
  have hcore := arbitrate_core (P := P) s.world.clearArbEvent
  refine ⟨roundOffers c P banks ⟨false, false, s.world.clearArbEvent⟩, rfl, ?_,
    roundOffers_taken_le_one hbanks _, ?_⟩
  · dsimp only
    rw [hcore]
    exact roundOffers_events banks _
  · intro o ho htaken hwrite up hup pkt rest hbuf
    exact roundOffers_reads_refused hbanks ho htaken hwrite hup hbuf

/-- The downstream refuses reads and takes writes: the write of one upstream is sent after the read
of the other was refused, and the read waits. -/
theorem request_path_fifo_write_passes :
    let P : Peers (Config.small 2 1).numUpstreams Unit :=
      { Peers.constant true true with sendTimingReq := fun _ pkt d => (pkt.isWrite, d) }
    ∃ s, Reach (Steps (Offering.step (Config.small 2 1) P)) Free (.start (World.init ())) s ∧
      s.made = [⟨0, ⟨.write, 1, ⟨1, 64, true⟩⟩, true⟩, ⟨0, ⟨.read, 0, ⟨0, 64, false⟩⟩, false⟩] ∧
      sentFrom .read 0 0 s.made ++ s.world.arb.inBufs .read 0 0 =
        acceptedFrom .read 0 0 s.world.log := by
  intro P
  obtain ⟨s, hs, hp⟩ := Reach.of_run (Offering.step (Config.small 2 1) P) Free
    (.start (World.init ()))
    [.request 0 0 ⟨0, 64, false⟩, .request 0 1 ⟨1, 64, true⟩, .arbitrate]
    (fun s => s.made =
      [⟨0, ⟨.write, 1, ⟨1, 64, true⟩⟩, true⟩, ⟨0, ⟨.read, 0, ⟨0, 64, false⟩⟩, false⟩])
    (by decide +kernel)
  exact ⟨s, hs, of_decide_eq_true hp, (request_path_fifo hs).2.1 .read 0 0⟩

end NetSim.Arbiter
