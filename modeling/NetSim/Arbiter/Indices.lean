import NetSim.Arbiter.Moves

/-!
# Indices of the tables

The flags `retryReq` and `retryResp` are arrays declared `[num_banks][num_up]`; the input buffers
and the response ports are vectors that the constructor sizes by its argument `num_upstreams`,
which it does not compare with `num_up`. The construction is a sequence of operations on the
lengths of the tables that stops at an index outside its table. For the handlers, the indices they
use are listed in the order of the source, those of the nested calls of the peers included. An index
comes from the ports, from the loops, or from the upstream kept with an entry of `responseQueue`,
which comes from `outstandingUpstream`.
-/

namespace NetSim.Arbiter

open Common Library

/-! ## Tables and indices -/

/-- The tables of the arbiter that are indexed by an upstream, and the round-robin pointers. -/
inductive IndexedTable
  | retryReq
  | retryResp
  | inBufs (kind : Kind)
  | responsePorts
  | rrIdx (kind : Kind)
deriving DecidableEq, Repr

/-- A use of a table: `t[bank]` or `t[bank][up]`. -/
inductive Access
  | row (t : IndexedTable) (bank : Nat)
  | cell (t : IndexedTable) (bank up : Nat)
deriving DecidableEq, Repr

/-- The lengths of the rows of every table. A pointer of `rrIdx` is a row without columns. -/
abbrev Lengths := IndexedTable → List Nat

/-- The index lies inside the table. -/
def Access.InRange (s : Lengths) : Access → Prop
  | .row t bank => bank < (s t).length
  | .cell t bank up => ∃ n ∈ (s t)[bank]?, up < n

instance (s : Lengths) : ∀ a : Access, Decidable (a.InRange s)
  | .row t bank => inferInstanceAs (Decidable (bank < (s t).length))
  | .cell t bank up => inferInstanceAs (Decidable (∃ n ∈ (s t)[bank]?, up < n))

/-! ## Construction -/

/-- What the constructor does to the tables. -/
inductive TableOp
  /-- `t[bank][up] = false` -/
  | assign (t : IndexedTable) (bank up : Nat)
  /-- `t.resize(n)` -/
  | resize (t : IndexedTable) (n : Nat)
  /-- `t[bank].resize(n)` -/
  | resizeRow (t : IndexedTable) (bank n : Nat)
  /-- `t[bank].emplace_back(..)` -/
  | emplaceBack (t : IndexedTable) (bank : Nat)
deriving DecidableEq, Repr

/-- The index that an operation uses. -/
def TableOp.access : TableOp → Option Access
  | .assign t bank up => some (.cell t bank up)
  | .resize _ _ => none
  | .resizeRow t bank _ => some (.row t bank)
  | .emplaceBack t bank => some (.row t bank)

/-- The lengths after an operation. -/
def TableOp.lengths (s : Lengths) : TableOp → Lengths
  | .assign _ _ _ => s
  | .resize t n => Function.update s t ((s t).take n ++ List.replicate (n - (s t).length) 0)
  | .resizeRow t bank n => Function.update s t ((s t).set bank n)
  | .emplaceBack t bank => Function.update s t ((s t).modify bank (· + 1))

/-- One operation; nothing when its index lies outside the table. -/
def TableOp.exec (s : Lengths) (op : TableOp) : Option Lengths :=
  if ∀ a ∈ op.access, a.InRange s then some (op.lengths s) else none

/-- The tables before the body of the constructor: the arrays have their declared sizes, the
pointers `num_banks` entries, and the vectors are empty. -/
def declared : Lengths
  | .retryReq | .retryResp => List.replicate numBanks numUp
  | .inBufs _ | .responsePorts => []
  | .rrIdx _ => List.replicate numBanks 0

/-- The loops of `DramArb::initializeBasicState` over the flags -/
def initializeBasicState (n : Nat) : List TableOp :=
  (List.range numBanks).flatMap fun bank => (List.range n).flatMap fun up =>
    [.assign .retryReq bank up, .assign .retryResp bank up]

/-- `DramArb::allocateInputBuffers` -/
def allocateInputBuffers (n : Nat) : List TableOp :=
  [.resize (.inBufs .read) numBanks, .resize (.inBufs .write) numBanks] ++
    (List.range numBanks).flatMap fun bank =>
      [.resizeRow (.inBufs .read) bank n, .resizeRow (.inBufs .write) bank n]

/-- `DramArb::createPorts` -/
def createPorts (n : Nat) : List TableOp :=
  .resize .responsePorts numBanks ::
    (List.range numBanks).flatMap fun bank => (List.range n).map fun _ =>
      .emplaceBack .responsePorts bank

/-- The tables that the constructor leaves with `num_upstreams = n`, or nothing when it uses an
index outside a table. -/
def construct (n : Nat) : Option Lengths :=
  (initializeBasicState n ++ allocateInputBuffers n ++ createPorts n).foldlM TableOp.exec declared

/-! ## Handlers -/

section Handlers

variable {δ : Type} (c : Config) (P : Peers c.numUpstreams δ)

omit P in
/-- The range check of `DramArb::parseResponsePortName`, after the numbers are parsed. -/
def parseResponsePortNameUses (bank up : Int) : List Access :=
  if 0 ≤ bank ∧ bank < numBanks ∧ 0 ≤ up ∧ up < c.numUpstreams then
    [.cell .responsePorts bank.toNat up.toNat]
  else []

omit P in
/-- `DramArb::recvTimingReqUp` -/
def recvTimingReqUpUses (a : DramArb) (pkt : Packet) (bank : Bank) (up : Nat) : List Access :=
  (if pkt.isRead then [] else [.cell (.inBufs .write) bank up]) ++
    match acceptRequest c a pkt bank up with
    | some _ => [.cell (.inBufs (if pkt.isRead then .read else .write)) bank up]
    | none => [.cell .retryReq bank up]

/-- The requests that an upstream makes from inside a call. -/
def Reaction.uses {ρ : Type} : Reaction c.numUpstreams δ ρ → World δ → List Access
  | .done _ _, _ => []
  | .request bank up pkt d next, w =>
    let r := recvTimingReqUp c P pkt bank up { w with rest := d }
    recvTimingReqUpUses c w.arb pkt bank up ++ (next r.1 r.2.rest).uses r.2

/-- A response to `target` was taken in the iteration of the index `i`. -/
def retryAfterUses (bank : Bank) (i target : Nat) (w : World δ) : List Access :=
  .cell .retryReq bank i ::
    if w.arb.retryReq bank i then
      .cell .responsePorts bank target ::
        (P.recvReqRetry bank target w.rest).uses c P (w.note (.retryReq bank target)) ++
        [.cell .retryReq bank i]
    else []

/-- The body of the loops of `DramArb::sendResponse`. -/
def sendResponseAtUses (w : World δ) (bank : Bank) (i : Nat) : List Access :=
  .cell .retryResp bank i ::
    if w.arb.retryResp bank i then []
    else match w.arb.responseQueue bank with
      | [] => []
      | (pkt, target) :: _ =>
        let r := sendTimingResp c P bank target pkt w
        .cell .responsePorts bank target ::
          (P.sendTimingResp bank target pkt w.rest).uses c P w ++
          if r.1 then retryAfterUses c P bank i target (popFront c P bank r.2)
          else [.cell .retryResp bank i]

/-- The iterations of the loops of `DramArb::sendResponse` -/
def sendResponseUses : List (Bank × Nat) → World δ → List Access
  | [], _ => []
  | (bank, i) :: rest, w =>
    sendResponseAtUses c P w bank i ++ sendResponseUses rest (sendResponseAt c P w (bank, i))

/-- `DramArb::arbitrateReadRequests` and `DramArb::arbitrateWriteRequests` -/
def arbitrateRequestsUses (kind : Kind) (bank : Bank) : List Nat → World δ → List Access
  | [], _ => []
  | k :: ks, w =>
    let up := (w.arb.rrIdx kind bank + k) % c.numUpstreams
    .row (.rrIdx kind) bank :: .cell (.inBufs kind) bank up ::
      match w.arb.inBufs kind bank up with
      | [] => arbitrateRequestsUses kind bank ks w
      | pkt :: _ =>
        let r := P.sendTimingReq bank pkt w.rest
        .cell (.inBufs kind) bank up ::
          if r.1 then [.cell (.inBufs kind) bank up, .row (.rrIdx kind) bank]
          else arbitrateRequestsUses kind bank ks
            { w.note (.sendReq bank pkt r.1) with rest := r.2 }

omit c P in
/-- `DramArb::checkPendingRequests`, over the remaining upstreams. -/
def checkPendingRequestsUses (a : DramArb) (bank : Bank) : List Nat → List Access
  | [] => []
  | up :: ups =>
    .cell (.inBufs .read) bank up ::
      if (a.readInBufs bank up).isEmpty then
        .cell (.inBufs .write) bank up ::
          if (a.writeInBufs bank up).isEmpty then checkPendingRequestsUses a bank ups else []
      else []

/-- The body of the loop of `DramArb::arbitrate`. -/
def arbitrateStepUses (bank : Bank) (w : World δ) : List Access :=
  let ups := List.range c.numUpstreams
  let r := arbitrateReadRequests c P bank w
  arbitrateRequestsUses c P .read bank ups w ++
    (if r.1 then [] else arbitrateRequestsUses c P .write bank ups r.2) ++
    checkPendingRequestsUses (arbitrateBank c P bank w).2.arb bank ups

/-- `DramArb::arbitrate`, over the remaining banks. -/
def arbitrateUses : List Bank → World δ → List Access
  | [], _ => []
  | bank :: rest, w =>
    arbitrateStepUses c P bank w ++ arbitrateUses rest (arbitrateBank c P bank w).2

/-- The indices that a step uses. -/
def uses (w : World δ) : Action c.numUpstreams δ → List Access
  | .request bank up pkt => recvTimingReqUpUses c w.arb pkt bank up
  | .arbitrate => arbitrateUses c P banks w.clearArbEvent
  | .sendResponse => sendResponseUses c P (visits c) w.clearSendResponseEvent
  | .response _ _ => []
  | .reqRetry _ => []
  | .respRetry bank up =>
    .cell .retryResp bank up :: sendResponseUses c P (visits c) (w.clearRetryResp bank up)
  | .rest _ => []

end Handlers

/-! ## What the handlers use -/

/-- The index is below the number of banks and, in a column, below the number of upstreams. -/
def Access.Below (n : Nat) : Access → Prop
  | .row _ bank => bank < numBanks
  | .cell (.rrIdx _) _ _ => False
  | .cell _ bank up => bank < numBanks ∧ up < n

/-- The upstreams that the arbiter keeps are upstreams that it has. -/
structure UpstreamsBelow (n : Nat) (s : Core) : Prop where
  queued : ∀ bank, ∀ entry ∈ s.arb.responseQueue bank, entry.2 < n
  recorded : ∀ bank addr, ∀ up ∈ (s.arb.outstandingUpstream bank).get addr, up < n

section Handlers

variable {δ : Type} {c : Config} {P : Peers c.numUpstreams δ} {w w' : World δ}
variable {bank : Bank} {up : Nat} {pkt : Packet} {s s' : Core}

theorem upstreamsBelow_init (n : Nat) : UpstreamsBelow n Core.init where
  queued := fun bank entry h => by cases h
  recorded := fun bank addr up h => by simp [Core.init, DramArb.init] at h

theorem UpstreamsBelow.of_eq {n : Nat} (h : UpstreamsBelow n s)
    (hqueue : s'.arb.responseQueue = s.arb.responseQueue)
    (hups : s'.arb.outstandingUpstream = s.arb.outstandingUpstream) : UpstreamsBelow n s' where
  queued := by
    rw [hqueue]
    exact h.queued
  recorded := by
    rw [hups]
    exact h.recorded

theorem UpstreamsBelow.recordRead {n : Nat} {a : DramArb} {log log' : Log}
    (h : UpstreamsBelow n ⟨a, log⟩) (bank : Bank) (hup : up < n) (pkt : Packet)
    (inBufs : Kind → Bank → Nat → List Packet) (arbEvent : Bool) :
    UpstreamsBelow n
      ⟨{ a.recordRead bank up pkt with inBufs := inBufs, arbEvent := arbEvent }, log'⟩ where
  queued := h.queued
  recorded := by
    intro b addr u hu
    by_cases hb : b = bank
    · subst hb
      simp only [DramArb.recordRead, Function.update_self, QueueMap.get_push] at hu
      split at hu
      · rcases List.mem_append.mp hu with hu | hu
        · exact h.recorded _ _ u hu
        · rw [List.mem_singleton.mp hu]
          exact hup
      · exact h.recorded _ _ u hu
    · simp only [DramArb.recordRead, Function.update_of_ne hb] at hu
      exact h.recorded _ _ u hu

/-- The upstream moves from the record of the read to its entry in the response queue. -/
theorem UpstreamsBelow.response {n : Nat} {a : DramArb} {log log' : Log} {resPkt : Packet}
    {addr : Addr} {ups : List Nat} (h : UpstreamsBelow n ⟨a, log⟩)
    (hup : (a.outstandingUpstream bank).get addr = up :: ups) :
    UpstreamsBelow n ⟨(a.dropRecord bank addr).pushResponse bank resPkt up, log'⟩ where
  queued := by
    intro b entry hentry
    by_cases hb : b = bank
    · subst hb
      simp only [DramArb.pushResponse, Function.update_self] at hentry
      rcases List.mem_append.mp hentry with hold | hnew
      · exact h.queued _ entry hold
      · rw [List.mem_singleton.mp hnew]
        exact h.recorded b addr up (hup ▸ List.mem_cons_self)
    · simp only [DramArb.pushResponse, Function.update_of_ne hb] at hentry
      exact h.queued _ entry hentry
  recorded := by
    intro b addr' u hu
    by_cases hb : b = bank
    · subst hb
      simp only [DramArb.pushResponse, DramArb.dropRecord, Function.update_self,
        QueueMap.get_pop] at hu
      split at hu
      · exact h.recorded _ _ u (List.mem_of_mem_tail hu)
      · exact h.recorded _ _ u hu
    · simp only [DramArb.pushResponse, DramArb.dropRecord, Function.update_of_ne hb] at hu
      exact h.recorded _ _ u hu

theorem UpstreamsBelow.popResponse {n : Nat} {a : DramArb} {log log' : Log}
    (h : UpstreamsBelow n ⟨a, log⟩) (bank : Bank) :
    UpstreamsBelow n ⟨a.popResponse bank, log'⟩ where
  queued := by
    intro b entry hentry
    by_cases hb : b = bank
    · subst hb
      simp only [DramArb.popResponse, Function.update_self] at hentry
      exact h.queued _ entry (List.mem_of_mem_tail hentry)
    · simp only [DramArb.popResponse, Function.update_of_ne hb] at hentry
      exact h.queued _ entry hentry
  recorded := h.recorded

theorem UpstreamsBelow.respMove (h : UpstreamsBelow c.numUpstreams s) (hmove : RespMove c s s') :
    UpstreamsBelow c.numUpstreams s' := by
  cases hmove with
  | requested hreq =>
    cases hreq with
    | refuse => exact h.of_eq rfl rfl
    | accept hup hacc =>
      obtain ⟨-, -, rfl⟩ | ⟨-, -, rfl⟩ := acceptRequest_cases hacc
      · exact h.recordRead _ hup _ _ true
      · exact h.of_eq rfl rfl
  | delivered hfront => exact h.popResponse _
  | bounced | retried | cleared | event => exact h.of_eq rfl rfl

theorem UpstreamsBelow.move (h : UpstreamsBelow c.numUpstreams s) (hmove : Move c s s') :
    UpstreamsBelow c.numUpstreams s' := by
  cases hmove with
  | resp hmove => exact h.respMove hmove
  | arb hmove =>
    cases hmove with
    | event => exact h.of_eq rfl rfl
    | offered hoffer =>
      cases hoffer with
      | refused | taken => exact h.of_eq rfl rfl
  | response _ _ hup => exact h.response hup
  | respRetry | reqRetry => exact h.of_eq rfl rfl

theorem recvTimingReqUpUses_below (hup : up < c.numUpstreams) (a : DramArb) (pkt : Packet)
    (bank : Bank) : ∀ x ∈ recvTimingReqUpUses c a pkt bank up, x.Below c.numUpstreams := by
  intro x hx
  rcases List.mem_append.mp hx with hx | hx
  · split at hx
    · cases hx
    · rw [List.mem_singleton.mp hx]
      exact ⟨bank.isLt, hup⟩
  · split at hx
    · rw [List.mem_singleton.mp hx]
      exact ⟨bank.isLt, hup⟩
    · rw [List.mem_singleton.mp hx]
      exact ⟨bank.isLt, hup⟩

theorem Reaction.uses_below {ρ : Type} (r : Reaction c.numUpstreams δ ρ) (w : World δ) :
    ∀ x ∈ r.uses c P w, x.Below c.numUpstreams := by
  induction r generalizing w with
  | done result d => exact List.forall_mem_nil _
  | request bank up pkt d next ih =>
    intro x hx
    rcases List.mem_append.mp hx with hx | hx
    · exact recvTimingReqUpUses_below up.isLt _ _ _ x hx
    · exact ih _ _ _ x hx

theorem retryAfterUses_below {i target : Nat} (hi : i < c.numUpstreams)
    (htarget : target < c.numUpstreams) (w : World δ) :
    ∀ x ∈ retryAfterUses c P bank i target w, x.Below c.numUpstreams := by
  intro x hx
  rcases List.mem_cons.mp hx with rfl | hx
  · exact ⟨bank.isLt, hi⟩
  · split at hx
    · rw [List.cons_append, List.mem_cons, List.mem_append, List.mem_singleton] at hx
      rcases hx with rfl | hx | rfl
      · exact ⟨bank.isLt, htarget⟩
      · exact Reaction.uses_below _ _ x hx
      · exact ⟨bank.isLt, hi⟩
    · cases hx

/-- The index of the response port comes from the entry at the front of the response queue. -/
theorem sendResponseAtUses_below {i : Nat} (hi : i < c.numUpstreams)
    (h : UpstreamsBelow c.numUpstreams w.toCore) :
    ∀ x ∈ sendResponseAtUses c P w bank i, x.Below c.numUpstreams := by
  intro x hx
  rcases List.mem_cons.mp hx with rfl | hx
  · exact ⟨bank.isLt, hi⟩
  · split at hx
    · cases hx
    · split at hx
      · cases hx
      · rename_i pkt target rest hfront
        have htarget : target < c.numUpstreams :=
          h.queued bank (pkt, target) (hfront ▸ List.mem_cons_self)
        rw [List.cons_append, List.mem_cons, List.mem_append] at hx
        rcases hx with rfl | hx | hx
        · exact ⟨bank.isLt, htarget⟩
        · exact Reaction.uses_below _ _ x hx
        · split at hx
          · exact retryAfterUses_below hi htarget _ x hx
          · rw [List.mem_singleton.mp hx]
            exact ⟨bank.isLt, hi⟩

theorem sendResponseUses_below {visited : List (Bank × Nat)}
    (hvisited : ∀ bi ∈ visited, bi.2 < c.numUpstreams)
    (h : UpstreamsBelow c.numUpstreams w.toCore) :
    ∀ x ∈ sendResponseUses c P visited w, x.Below c.numUpstreams := by
  induction visited generalizing w with
  | nil => exact List.forall_mem_nil _
  | cons bi rest ih =>
    obtain ⟨bank, i⟩ := bi
    intro x hx
    rcases List.mem_append.mp hx with hx | hx
    · exact sendResponseAtUses_below (hvisited _ List.mem_cons_self) h x hx
    · have hnext : UpstreamsBelow c.numUpstreams (sendResponseAt c P w (bank, i)).toCore :=
        star_invariant (fun _ _ m hs => hs.respMove m) (sendResponseAt_visit w bank i).moves h
      exact ih (fun bi hbi => hvisited bi (List.mem_cons_of_mem _ hbi)) hnext x hx

theorem passUses_below (h : UpstreamsBelow c.numUpstreams w.toCore) :
    ∀ x ∈ sendResponseUses c P (visits c) w, x.Below c.numUpstreams :=
  sendResponseUses_below (fun _ hbi => mem_visits.mp hbi) h

theorem arbitrateRequestsUses_below (kind : Kind) (bank : Bank) (ks : List Nat) (w : World δ) :
    ∀ x ∈ arbitrateRequestsUses c P kind bank ks w, x.Below c.numUpstreams := by
  induction ks generalizing w with
  | nil => exact List.forall_mem_nil _
  | cons k ks ih =>
    have hup : (w.arb.rrIdx kind bank + k) % c.numUpstreams < c.numUpstreams :=
      Nat.mod_lt _ c.numUpstreams_pos
    intro x hx
    simp only [arbitrateRequestsUses, List.mem_cons] at hx
    rcases hx with rfl | rfl | hx
    · exact bank.isLt
    · exact ⟨bank.isLt, hup⟩
    · split at hx
      · exact ih w x hx
      · rcases List.mem_cons.mp hx with rfl | hx
        · exact ⟨bank.isLt, hup⟩
        · split at hx
          · simp only [List.mem_cons, List.not_mem_nil, or_false] at hx
            rcases hx with rfl | rfl
            · exact ⟨bank.isLt, hup⟩
            · exact bank.isLt
          · exact ih _ x hx

theorem checkPendingRequestsUses_below (a : DramArb) (bank : Bank) {n : Nat} {ups : List Nat}
    (hups : ∀ up ∈ ups, up < n) : ∀ x ∈ checkPendingRequestsUses a bank ups, x.Below n := by
  induction ups with
  | nil => exact List.forall_mem_nil _
  | cons up ups ih =>
    have hup : up < n := hups up List.mem_cons_self
    intro x hx
    rcases List.mem_cons.mp hx with rfl | hx
    · exact ⟨bank.isLt, hup⟩
    · split at hx
      · rcases List.mem_cons.mp hx with rfl | hx
        · exact ⟨bank.isLt, hup⟩
        · split at hx
          · exact ih (fun u hu => hups u (List.mem_cons_of_mem _ hu)) x hx
          · cases hx
      · cases hx

theorem arbitrateUses_below (todo : List Bank) (w : World δ) :
    ∀ x ∈ arbitrateUses c P todo w, x.Below c.numUpstreams := by
  induction todo generalizing w with
  | nil => exact List.forall_mem_nil _
  | cons bank rest ih =>
    intro x hx
    simp only [arbitrateUses, arbitrateStepUses, List.mem_append] at hx
    rcases hx with ((hx | hx) | hx) | hx
    · exact arbitrateRequestsUses_below _ _ _ _ x hx
    · split at hx
      · cases hx
      · exact arbitrateRequestsUses_below _ _ _ _ x hx
    · exact checkPendingRequestsUses_below _ _ (fun _ => List.mem_range.mp) x hx
    · exact ih _ x hx

/-- Every index that a step uses is below the number of banks or of upstreams. -/
theorem uses_below (h : UpstreamsBelow c.numUpstreams w.toCore)
    (action : Action c.numUpstreams δ) : ∀ x ∈ uses c P w action, x.Below c.numUpstreams := by
  intro x hx
  cases action with
  | request bank up pkt => exact recvTimingReqUpUses_below up.isLt _ _ _ x hx
  | arbitrate => exact arbitrateUses_below _ _ x hx
  | sendResponse =>
    have hclear : UpstreamsBelow c.numUpstreams w.clearSendResponseEvent.toCore :=
      h.of_eq rfl rfl
    exact passUses_below hclear x hx
  | response | reqRetry | rest => cases hx
  | respRetry bank up =>
    rcases List.mem_cons.mp hx with rfl | hx
    · exact ⟨bank.isLt, up.isLt⟩
    · have hclear : UpstreamsBelow c.numUpstreams (w.clearRetryResp bank up).toCore :=
        h.of_eq rfl rfl
      exact passUses_below hclear x hx

end Handlers

/-! ## The constructor -/

/-- The tables of an arbiter with `n` upstreams, as the handlers need them. -/
structure Sized (n : Nat) (s : Lengths) : Prop where
  flags : s .retryReq = List.replicate numBanks numUp ∧ s .retryResp = List.replicate numBanks numUp
  buffers : ∀ kind, s (.inBufs kind) = List.replicate numBanks n
  ports : s .responsePorts = List.replicate numBanks n
  pointers : ∀ kind, (s (.rrIdx kind)).length = numBanks

/-- The operations on the flags do not change the lengths, so all their indices are compared with
the declared sizes. -/
theorem foldlM_assign {s s' : Lengths} {ops : List TableOp}
    (hops : ∀ op ∈ ops, ∃ t bank up, op = .assign t bank up)
    (h : ops.foldlM TableOp.exec s = some s') :
    s' = s ∧ ∀ t bank up, TableOp.assign t bank up ∈ ops → (Access.cell t bank up).InRange s := by
  induction ops with
  | nil =>
    cases h
    exact ⟨rfl, fun t bank up hmem => by cases hmem⟩
  | cons op ops ih =>
    obtain ⟨t, bank, up, rfl⟩ := hops op List.mem_cons_self
    rw [List.foldlM_cons] at h
    obtain ⟨s1, hexec, hrest⟩ := Option.bind_eq_some_iff.mp h
    simp only [TableOp.exec, TableOp.access, Option.mem_some_iff, forall_eq'] at hexec
    split at hexec
    · rename_i hrange
      cases hexec
      obtain ⟨hs, hall⟩ := ih (fun op hop => hops op (List.mem_cons_of_mem _ hop)) hrest
      refine ⟨hs, fun t' bank' up' hmem => ?_⟩
      rcases List.mem_cons.mp hmem with heq | hmem
      · cases heq
        exact hrange
      · exact hall t' bank' up' hmem
    · cases hexec

theorem initializeBasicState_assigns (n : Nat) :
    ∀ op ∈ initializeBasicState n, ∃ t bank up, op = .assign t bank up := by
  intro op hop
  simp only [initializeBasicState, List.mem_flatMap, List.mem_cons, List.not_mem_nil,
    or_false] at hop
  obtain ⟨bank, -, up, -, rfl | rfl⟩ := hop
  · exact ⟨_, _, _, rfl⟩
  · exact ⟨_, _, _, rfl⟩

/-- The constructor sets the flag of upstream `n - 1`, which the array must have. -/
theorem le_numUp_of_construct {n : Nat} {s : Lengths} (h : construct n = some s) :
    n ≤ numUp := by
  rcases Nat.eq_zero_or_pos n with rfl | hn
  · exact Nat.zero_le _
  · rw [construct, List.append_assoc, List.foldlM_append] at h
    obtain ⟨s1, hflags, -⟩ := Option.bind_eq_some_iff.mp h
    have hlast : TableOp.assign .retryReq 0 (n - 1) ∈ initializeBasicState n := by
      simp only [initializeBasicState, List.mem_flatMap, List.mem_range]
      exact ⟨0, by decide, n - 1, by omega, List.mem_cons_self⟩
    obtain ⟨m, hm, hlt⟩ := (foldlM_assign (initializeBasicState_assigns n) hflags).2 _ _ _ hlast
    have hm : m = numUp := (Option.some.inj hm).symm
    omega

/-- Up to `num_up` upstreams all indices of the constructor lie inside the tables. -/
theorem construct_of_le {n : Nat} (h : n ≤ numUp) : ∃ s, construct n = some s ∧ Sized n s := by
  have hall : ∀ m : Fin (numUp + 1), ∃ s ∈ construct m,
      (s .retryReq = List.replicate numBanks numUp ∧
        s .retryResp = List.replicate numBanks numUp) ∧
      (s (.inBufs .read) = List.replicate numBanks m.val ∧
        s (.inBufs .write) = List.replicate numBanks m.val) ∧
      s .responsePorts = List.replicate numBanks m.val ∧
      (s (.rrIdx .read)).length = numBanks ∧ (s (.rrIdx .write)).length = numBanks := by
    decide +kernel
  obtain ⟨s, hs, hflags, hbuffers, hports, hpointers⟩ := hall ⟨n, Nat.lt_succ_of_le h⟩
  refine ⟨s, hs, hflags, ?_, hports, ?_⟩
  · rintro (_ | _)
    · exact hbuffers.1
    · exact hbuffers.2
  · rintro (_ | _)
    · exact hpointers.1
    · exact hpointers.2

theorem Sized.cell {n m bank up : Nat} {s : Lengths} {t : IndexedTable}
    (h : s t = List.replicate numBanks m) (hbank : bank < numBanks) (hup : up < n) (hn : n ≤ m) :
    (Access.cell t bank up).InRange s := by
  refine ⟨m, ?_, hup.trans_le hn⟩
  rw [h, Option.mem_def, List.getElem?_replicate, if_pos hbank]

/-- What the handlers use lies inside the tables that the constructor leaves. -/
theorem Sized.inRange {n : Nat} {s : Lengths} (h : Sized n s) (hn : n ≤ numUp) {x : Access}
    (hx : x.Below n) : x.InRange s := by
  cases x with
  | row t bank =>
    change bank < (s t).length
    have hlen : (s t).length = numBanks := by
      cases t with
      | retryReq => simp [h.flags.1]
      | retryResp => simp [h.flags.2]
      | inBufs kind => simp [h.buffers kind]
      | responsePorts => simp [h.ports]
      | rrIdx kind => exact h.pointers kind
    rw [hlen]
    exact hx
  | cell t bank up =>
    cases t with
    | retryReq => exact Sized.cell h.flags.1 hx.1 hx.2 hn
    | retryResp => exact Sized.cell h.flags.2 hx.1 hx.2 hn
    | inBufs kind => exact Sized.cell (h.buffers kind) hx.1 hx.2 le_rfl
    | responsePorts => exact Sized.cell h.ports hx.1 hx.2 le_rfl
    | rrIdx kind => exact hx.elim

theorem parseResponsePortNameUses_below (c : Config) (bank up : Int) :
    ∀ x ∈ parseResponsePortNameUses c bank up, x.Below c.numUpstreams := by
  intro x hx
  unfold parseResponsePortNameUses at hx
  split at hx
  · rw [List.mem_singleton.mp hx]
    constructor <;> omega
  · cases hx

/-! ## Every configuration -/

/-- An arbiter with `num_upstreams = n` uses no index outside a table, in its construction, in a
look-up of a port and in every step of every run, and keeps no upstream that it does not have. -/
def IndexSafe (n : Nat) : Prop :=
  ∃ s, construct n = some s ∧ ∀ c : Config, c.numUpstreams = n →
    (∀ bank up : Int, ∀ x ∈ parseResponsePortNameUses c bank up, x.InRange s) ∧
    ∀ (δ : Type) (P : Peers c.numUpstreams δ) (d : δ) (w : World δ),
      Reach (Steps (step c P)) Free (World.init d) w →
        UpstreamsBelow n w.toCore ∧ ∀ action, ∀ x ∈ uses c P w action, x.InRange s

/-- The indices lie inside the tables exactly for the numbers of upstreams that the flags have room
for. -/
theorem indexSafe_iff (n : Nat) : IndexSafe n ↔ n ≤ numUp := by
  constructor
  · rintro ⟨s, hs, -⟩
    exact le_numUp_of_construct hs
  · intro hle
    obtain ⟨s, hs, hsized⟩ := construct_of_le hle
    refine ⟨s, hs, ?_⟩
    rintro c rfl
    refine ⟨fun bank up x hx => ?_, fun δ P d w hw => ?_⟩
    · exact hsized.inRange hle (parseResponsePortNameUses_below c bank up x hx)
    · have hups : UpstreamsBelow c.numUpstreams w.toCore :=
        reach_invariant (upstreamsBelow_init _) (fun _ _ m hs => hs.move m) hw
      exact ⟨hups, fun action x hx => hsized.inRange hle (uses_below hups action x hx)⟩

/-- With six upstreams the constructor sets `retryReq[0][5]` of rows that have five entries. -/
theorem indexSafe_fails_six : ¬ ∀ n, 1 ≤ n → IndexSafe n := by
  intro h
  obtain ⟨s, hs, -⟩ := h 6 (by decide)
  have hnone : (construct 6).isSome = false := by decide +kernel
  rw [hs] at hnone
  cases hnone

end NetSim.Arbiter
