import NetSim.Arbiter.Offers

/-!
# Bounded bypass

An upstream whose buffer is not empty and whose head is not refused cannot be passed over for long:
the scan of its bank starts right behind the upstream that was served last, so every other upstream
is served at most once before it. The scans are selections of `Passing`, with the round-robin
pointer of the bank as the pointer.
-/

namespace NetSim.Arbiter

open Common Library Relation

section Definitions

variable {δ : Type} (c : Config) (P : Peers c.numUpstreams δ) (kind : Kind) (b : Bank) (up : Nat)

omit c P up in
/-- The upstreams whose requests were sent on a bank, latest first. -/
def servedUps (made : List Offer) : List Nat :=
  (made.filter fun o => o.taken ∧ o.head.kind = kind ∧ o.bank = b).map (·.head.up)

/-- If a request of the kind is sent in the turn of the bank, the buffer of the upstream is not
empty and its head is not refused. -/
def FavourableTurn (r : Round δ) (bank : Bank) : Prop :=
  bank = b → (∃ o ∈ turnOffers c P r bank, o.taken = true ∧ o.head.kind = kind) →
    r.world.arb.inBufs kind bank up ≠ [] ∧
      ∀ o ∈ turnOffers c P r bank, o.taken = false → o.head.kind = kind → o.head.up ≠ up

instance (r : Round δ) (bank : Bank) : Decidable (FavourableTurn c P kind b up r bank) := by
  unfold FavourableTurn
  infer_instance

/-- The same for every round of arbitration. -/
def FavourableStep (s : Offering δ) : Action c.numUpstreams δ → Prop
  | .arbitrate => Along (arbitrateStep c P) (FavourableTurn c P kind b up) banks
      ⟨false, false, s.world.clearArbEvent⟩
  | _ => True

instance (s : Offering δ) : ∀ action, Decidable (FavourableStep c P kind b up s action)
  | .arbitrate => inferInstanceAs (Decidable (Along _ _ _ _))
  | .request .. | .sendResponse | .response .. | .reqRetry _ | .respRetry .. | .rest _ =>
    .isTrue trivial

omit P in
/-- The upstream was served, or those that were served lie behind it. -/
def ServedOrPassing (a : DramArb) (made : List Offer) : Prop :=
  up ∈ servedUps kind b made ∨
    Passing c.numUpstreams up (a.rrIdx kind b) (servedUps kind b made)

end Definitions

variable {δ : Type} {c : Config} {P : Peers c.numUpstreams δ} {kind : Kind} {b bank : Bank}
variable {up : Nat} {a a' : DramArb} {turn made : List Offer}

theorem servedUps_append (kind : Kind) (b : Bank) (recent made : List Offer) :
    servedUps kind b (recent ++ made) = servedUps kind b recent ++ servedUps kind b made := by
  simp [servedUps]

theorem servedUps_refused (kind : Kind) (b bank : Bank) (hs : List Head) :
    servedUps kind b (hs.map fun h => ⟨bank, h, false⟩).reverse = [] := by
  simp [servedUps, List.filter_eq_nil_iff]

/-! ## The scan -/

/-- The heads of the kind that were tried before `h` were refused. -/
theorem heads_of_offers {refused untried : List Head} {h : Head}
    (hoffers : offers c a bank = refused ++ h :: untried) :
    ∃ skipped rest, heads c a bank h.kind (List.range c.numUpstreams) = skipped ++ h :: rest ∧
      ∀ x ∈ skipped, x ∈ refused := by
  have hread : ∀ x ∈ heads c a bank .read (List.range c.numUpstreams), x.kind = .read :=
    fun x hx => kind_of_mem_heads hx
  have hwrite : ∀ x ∈ heads c a bank .write (List.range c.numUpstreams), x.kind = .write :=
    fun x hx => kind_of_mem_heads hx
  rcases List.append_eq_append_iff.mp hoffers with ⟨t, rfl, hrest⟩ | ⟨t, hreads, hrest⟩
  · have hkind : h.kind = .write := hwrite h (by simp [hrest])
    rw [hkind]
    exact ⟨t, untried, hrest, fun x hx => List.mem_append_right _ hx⟩
  · cases t with
    | nil =>
      rw [List.nil_append] at hrest
      have hkind : h.kind = .write := hwrite h (by rw [← hrest]; exact List.mem_cons_self)
      rw [hkind]
      exact ⟨[], untried, hrest.symm, by simp⟩
    | cons x t =>
      obtain ⟨rfl, -⟩ := List.cons.inj hrest
      have hkind : h.kind = .read := hread h (by simp [hreads])
      rw [hkind]
      exact ⟨refused, t, hreads, fun x hx => hx⟩

/-- The scan reached `h` at some distance from the pointer, and it tried the head of every buffer
before that. -/
theorem scan_of_heads {skipped rest : List Head} {h : Head}
    (hheads : heads c a bank kind (List.range c.numUpstreams) = skipped ++ h :: rest) :
    ∃ k, k < c.numUpstreams ∧ h.up = (a.rrIdx kind bank + k) % c.numUpstreams ∧
      ∀ j, j < k → ∀ pkt more,
        a.inBufs kind bank ((a.rrIdx kind bank + j) % c.numUpstreams) = pkt :: more →
          ⟨kind, (a.rrIdx kind bank + j) % c.numUpstreams, pkt⟩ ∈ skipped := by
  obtain ⟨l₁, l₂, hsplit, hskipped, hrest⟩ := List.filterMap_eq_append_iff.mp hheads
  obtain ⟨l₃, k, l₄, rfl, hnone, hk, -⟩ := List.filterMap_eq_cons_iff.mp hrest
  obtain ⟨pkt, -, rfl⟩ := Option.map_eq_some_iff.mp hk
  have hordered : (l₁ ++ (l₃ ++ k :: l₄)).Pairwise (· < ·) := hsplit ▸ List.pairwise_lt_range
  have hmem : k ∈ List.range c.numUpstreams := by simp [hsplit]
  refine ⟨k, List.mem_range.mp hmem, rfl, fun j hj pkt more hbuf => ?_⟩
  have hj' : j ∈ l₁ ++ (l₃ ++ k :: l₄) := by
    have hk' := List.mem_range.mp hmem
    rw [← hsplit, List.mem_range]
    omega
  rcases List.mem_append.mp hj' with hj₁ | hj₂
  · rw [← hskipped]
    exact List.mem_filterMap.mpr ⟨j, hj₁, by simp [hbuf]⟩
  · rcases List.mem_append.mp hj₂ with hj₃ | hj₄
    · have hempty := hnone j hj₃
      simp [hbuf] at hempty
    · -- what stands behind `k` in the scan is further away
      have htail := (List.pairwise_append.mp (List.pairwise_append.mp hordered).2.1).2.1
      rcases List.mem_cons.mp hj₄ with rfl | hlater
      · omega
      · have hlt := (List.pairwise_cons.mp htail).1 j hlater
        omega

/-! ## The turn of a bank -/

/-- A request that is taken stands in the scan before an upstream whose head was not refused. -/
theorem taken_before {refused untried : List Head} {head : Head}
    (hoffers : offers c a bank = refused ++ head :: untried) (hup : up < c.numUpstreams)
    (hsame : head.up ≠ up) (hbuf : a.inBufs head.kind bank up ≠ [])
    (hnot : ∀ pkt, ⟨head.kind, up, pkt⟩ ∉ refused) :
    ∃ k, head.up = (a.rrIdx head.kind bank + k) % c.numUpstreams ∧
      k < scanDist c.numUpstreams (a.rrIdx head.kind bank) up := by
  obtain ⟨skipped, rest, hheads, hskipped⟩ := heads_of_offers hoffers
  obtain ⟨k, -, hheadUp, hscan⟩ := scan_of_heads hheads
  refine ⟨k, hheadUp, ?_⟩
  have hreached : (a.rrIdx head.kind bank +
      scanDist c.numUpstreams (a.rrIdx head.kind bank) up) % c.numUpstreams = up :=
    add_scanDist_mod hup
  rcases Nat.lt_trichotomy k (scanDist c.numUpstreams (a.rrIdx head.kind bank) up) with
    hlt | heq | hgt
  · exact hlt
  · exact absurd (by rw [hheadUp, heq, hreached]) hsame
  · -- the scan passed `up`, so it offered its head, and that was refused
    obtain ⟨pkt, more, hcons⟩ := List.exists_cons_of_ne_nil hbuf
    have hoffered := hscan _ hgt pkt more (by rw [hreached, hcons])
    rw [hreached] at hoffered
    exact absurd (hskipped _ hoffered) (hnot pkt)

/-- A request that is taken moves the pointer of its kind and bank only. -/
theorem popInBuf_rrIdx_of_ne {head : Head} (h : ¬ (head.kind = kind ∧ bank = b)) :
    (a.popInBuf c head.kind bank head.up).rrIdx kind b = a.rrIdx kind b := by
  unfold DramArb.popInBuf
  by_cases hkind : kind = head.kind
  · subst hkind
    have hbank : b ≠ bank := fun heq => h ⟨rfl, heq.symm⟩
    simp [hbank]
  · simp [hkind]

theorem Turn.servedOrPassing (h : Turn c bank a a' turn) (hup : up < c.numUpstreams)
    (hfavourable : bank = b → (∃ o ∈ turn, o.taken = true ∧ o.head.kind = kind) →
      a.inBufs kind bank up ≠ [] ∧
        ∀ o ∈ turn, o.taken = false → o.head.kind = kind → o.head.up ≠ up)
    (hs : ServedOrPassing c kind b up a made) : ServedOrPassing c kind b up a' (turn ++ made) := by
  rw [ServedOrPassing, servedUps_append]
  rcases hs with hserved | hpassing
  · exact Or.inl (List.mem_append_right _ hserved)
  cases h with
  | refused =>
    rw [servedUps_refused, List.nil_append]
    exact Or.inr hpassing
  | @taken refused untried head hoffers =>
    by_cases hhere : head.kind = kind ∧ bank = b
    · obtain ⟨rfl, rfl⟩ := hhere
      have hself : servedUps head.kind bank
          (⟨bank, head, true⟩ :: (refused.map fun h => ⟨bank, h, false⟩).reverse) =
            [head.up] := by
        simp [servedUps]
      rw [hself]
      by_cases hsame : head.up = up
      · exact Or.inl (by simp [hsame])
      obtain ⟨hbuf, hnot⟩ := hfavourable rfl ⟨_, List.mem_cons_self, rfl, rfl⟩
      obtain ⟨k, hheadUp, hbefore⟩ := taken_before hoffers hup hsame hbuf fun pkt hrefused => by
        have hmade : (⟨bank, ⟨head.kind, up, pkt⟩, false⟩ : Offer) ∈
            ⟨bank, head, true⟩ :: (refused.map fun h => ⟨bank, h, false⟩).reverse :=
          List.mem_cons_of_mem _ (List.mem_reverse.mpr (List.mem_map.mpr ⟨_, hrefused, rfl⟩))
        exact hnot _ hmade rfl rfl rfl
      have hnext := hpassing.next hup hbefore
      rw [← hheadUp] at hnext
      refine Or.inr ?_
      simpa [DramArb.popInBuf] using hnext
    · -- another pointer moves
      have hself : servedUps kind b
          (⟨bank, head, true⟩ :: (refused.map fun h => ⟨bank, h, false⟩).reverse) = [] := by
        simp [servedUps, hhere]
      rw [hself, popInBuf_rrIdx_of_ne hhere, List.nil_append]
      exact Or.inr hpassing

/-! ## Rounds and runs -/

theorem roundOffers_servedOrPassing {bs : List Bank} {r : Round δ} (hup : up < c.numUpstreams)
    (hturns : Along (arbitrateStep c P) (FavourableTurn c P kind b up) bs r)
    (hs : ServedOrPassing c kind b up r.world.arb made) :
    ServedOrPassing c kind b up (bs.foldl (arbitrateStep c P) r).world.arb
      (roundOffers c P bs r ++ made) := by
  induction bs generalizing r made with
  | nil => exact hs
  | cons bank bs ih =>
    obtain ⟨hturn, hrest⟩ := hturns
    rw [List.foldl_cons, roundOffers, List.append_assoc]
    exact ih hrest ((arbitrateStep_turn r bank).servedOrPassing hup hturn hs)

/-- The pointers move only when a head is taken. -/
theorem Silent.rrIdx {s s' : Core} (h : Silent c s s') : s'.arb.rrIdx = s.arb.rrIdx := by
  obtain ⟨hmove, hlog⟩ := h
  cases hmove with
  | resp h =>
    cases h with
    | requested h =>
      cases h with
      | refuse => rfl
      | accept hup h =>
        obtain ⟨-, -, rfl⟩ | ⟨-, -, rfl⟩ := acceptRequest_cases h
        · rfl
        · rfl
    | delivered | bounced | retried | cleared | event => rfl
  | arb h =>
    cases h with
    | offered h =>
      cases h with
      | refused => rfl
      | taken => exact absurd rfl (hlog _ _ _)
    | event => rfl
  | respRetry | reqRetry | response => rfl

theorem Offering.step_servedOrPassing {s s' : Offering δ} {action : Action c.numUpstreams δ}
    (hup : up < c.numUpstreams) (hok : FavourableStep c P kind b up s action)
    (h : Offering.step c P s action = some s')
    (hs : ServedOrPassing c kind b up s.world.arb s.made) :
    ServedOrPassing c kind b up s'.world.arb s'.made := by
  obtain ⟨w, hstep, rfl⟩ := Option.map_eq_some_iff.mp h
  by_cases haction : action = .arbitrate
  · subst haction
    obtain ⟨-, rfl⟩ := step_arbitrate hstep
    have hcore := arbitrate_core (P := P) s.world.clearArbEvent
    have hround :=
      roundOffers_servedOrPassing (r := ⟨false, false, s.world.clearArbEvent⟩) hup hok hs
    dsimp only
    rw [hcore]
    exact hround
  · have hnone : stepOffers c P s.world action = [] := by
      cases action with
      | arbitrate => exact absurd rfl haction
      | request | sendResponse | response | reqRetry | respRetry | rest => rfl
    rw [hnone, List.nil_append]
    exact star_invariant (I := fun t => ServedOrPassing c kind b up t.arb s.made)
      (fun _ _ hmove ht => by rwa [ServedOrPassing, hmove.rrIdx]) (step_silent hstep haction) hs

/-- **Bounded bypass.** Over any stretch of a run, from any state, in which the buffer of an
upstream on a bank is not empty and its head is not refused whenever that bank sends a request of
the kind: as long as the upstream was not served, every other upstream was served at most once,
and so at most `num_upstreams - 1` requests of others were sent. -/
theorem bounded_bypass (kind : Kind) (bank : Bank) {up : Nat} (hup : up < c.numUpstreams)
    {w : World δ} {s : Offering δ}
    (h : Reach (Steps (Offering.step c P)) (FavourableStep c P kind bank up) (.start w) s)
    (hwaits : up ∉ servedUps kind bank s.made) :
    (∀ v, (servedUps kind bank s.made).count v ≤ 1) ∧
      (servedUps kind bank s.made).length ≤ c.numUpstreams - 1 := by
  have hs : ServedOrPassing c kind bank up s.world.arb s.made := by
    refine h.invariant (fun s => ServedOrPassing c kind bank up s.world.arb s.made)
      (Or.inr (Passing.start (by omega))) ?_
    intro s action s' _ hs hok hstep
    exact Offering.step_servedOrPassing hup hok hstep hs
  have hpassing := hs.resolve_left hwaits
  have hlength := hpassing.length_lt
  exact ⟨List.nodup_iff_count_le_one.mp hpassing.nodup, by omega⟩

/-- The reads of upstream 1 wait while upstream 0, which has two reads, is served once. -/
theorem bounded_bypass_once :
    ∃ s, Reach (Steps (Offering.step (Config.small 4 1) (Peers.constant true true)))
        (FavourableStep _ (Peers.constant true true) .read 0 1) (.start (World.init ())) s ∧
      servedUps .read 0 s.made = [0] ∧ s.world.arb.readInBufs 0 0 ≠ [] ∧
      ∀ v, (servedUps .read 0 s.made).count v ≤ 1 := by
  obtain ⟨s, hs, hp⟩ := Reach.of_run
    (Offering.step (Config.small 4 1) (Peers.constant true true))
    (FavourableStep _ (Peers.constant true true) .read 0 1) (.start (World.init ()))
    [.request 0 0 ⟨0, 64, false⟩, .request 0 0 ⟨1, 128, false⟩, .request 0 1 ⟨2, 64, false⟩,
      .arbitrate]
    (fun s => servedUps .read 0 s.made = [0] ∧ s.world.arb.readInBufs 0 0 ≠ [])
    (by decide +kernel)
  obtain ⟨hserved, hbuf⟩ := of_decide_eq_true hp
  exact ⟨s, hs, hserved, hbuf, (bounded_bypass .read 0 (by decide) hs (by simp [hserved])).1⟩

end NetSim.Arbiter
