import NetSim.Event.Bins

/-!
# `insert` is insertion before all entries of equal key

`insertBefore` links an event in front of the bins at a pointer: as a bin of its own when
they are empty or larger, on top of the first bin otherwise (`place`). It is idempotent, so the
second evaluation inside `insert` changes nothing. The loop of `insert` splits the bins at the
key of the event (`findBin_spec`), and one write to the last smaller top finishes the insertion.
-/

namespace NetSim.Event

open Library EventQueue

variable {ι : Type} [DecidableEq ι] {q q' q'' : EventQueue ι} {e : ι} {fuel : Nat}
  {bins before after : List (Bin ι)}

/-- The bins at a pointer after `insertBefore`. -/
def place (q : EventQueue ι) (e : ι) : List (Bin ι) → List (Bin ι)
  | [] => [(e, [])]
  | b :: bs => if q.lt e b.1 then (e, []) :: b :: bs else (e, b.1 :: b.2) :: bs

omit [DecidableEq ι] in
@[simp] theorem flat_place (q : EventQueue ι) (e : ι) (bins : List (Bin ι)) :
    flat (place q e bins) = e :: flat bins := by
  cases bins with
  | nil => rfl
  | cons b bs =>
    simp only [place]
    split <;> simp

omit [DecidableEq ι] in
theorem SameOff.place {s : List ι} (h : SameOff s q q') : place q' e bins = place q e bins := by
  cases bins with
  | nil => rfl
  | cons b bs =>
    have hlt : q'.lt e b.1 = q.lt e b.1 := by simp [lt, h.when, h.priority]
    simp only [Event.place, hlt]

theorem sameOff_setLinks (q : EventQueue ι) (e : ι) (p s : Option ι) :
    SameOff [e] q ((q.setNextBin e p).setNextInBin e s) where
  head := rfl
  curTick := rfl
  when := rfl
  priority := rfl
  scheduled := rfl
  nextBin := fun _ hx => Function.update_of_ne (List.ne_of_not_mem_cons hx) _ _
  nextInBin := fun _ hx => Function.update_of_ne (List.ne_of_not_mem_cons hx) _ _

omit [DecidableEq ι] in
theorem forall_not_mem_singleton {xs : List ι} (he : e ∉ xs) : ∀ x ∈ xs, x ∉ [e] := by
  intro x hx hmem
  rw [List.mem_singleton.mp hmem] at hx
  exact he hx

/-- `insertBefore` at a pointer whose bins do not contain the event. -/
theorem insertBefore_spec {curr : Option ι} (hTops : Chain q.nextBin curr (tops after))
    (hStacked : Stacked q after) (he : e ∉ flat after) :
    ∃ q', insertBefore e curr q = .ok q' ∧ SameOff [e] q q' ∧
      Chain q'.nextBin (some e) (tops (place q e after)) ∧ Stacked q' (place q e after) := by
  cases after with
  | nil =>
    have hcurr : curr = none := hTops
    subst hcurr
    refine ⟨_, by simp [insertBefore], sameOff_setLinks q e none none,
      ⟨rfl, by simp⟩, ?_⟩
    intro b hb
    rw [List.mem_singleton.mp hb]
    simp
  | cons b bs =>
    obtain ⟨rfl, hRest⟩ := hTops
    have heb : e ≠ b.1 := fun h => he (h ▸ top_mem_flat List.mem_cons_self)
    have heTops : e ∉ tops bs := fun h => not_mem_tops he (List.mem_cons_of_mem _ h)
    by_cases hlt : q.lt e b.1 = true
    · -- a bin of its own, in front of the larger ones
      have hSame := sameOff_setLinks q e (some b.1) none
      refine ⟨_, by simp [insertBefore, hlt, Ne.symm heb],
        hSame, ?_, ?_⟩
      · simp only [place, hlt, if_true, tops_cons]
        refine ⟨rfl, by simp, ?_⟩
        rw [hSame.nextBin _ (by simpa using heb.symm)]
        exact hSame.chain (forall_not_mem_singleton heTops) hRest
      · simp only [place, hlt, if_true]
        intro c hc
        rcases List.mem_cons.mp hc with rfl | hc
        · simp
        · exact hSame.stacked (forall_not_mem_singleton he) hStacked c hc
    · -- on top of the first bin, whose `nextBin` it takes over
      have hSame := sameOff_setLinks q e (q.nextBin b.1) (some b.1)
      have hNext : q.nextBin b.1 ≠ some e := by
        rw [hRest.head]
        intro h
        exact heTops (List.mem_of_mem_head? (Option.mem_def.mpr h))
      refine ⟨_, by simp [insertBefore, hlt, hNext], hSame, ?_, ?_⟩
      · rw [place, if_neg hlt, tops_cons]
        refine ⟨rfl, ?_⟩
        simp only [setNextInBin_nextBin, setNextBin_nextBin, Function.update_self]
        exact hSame.chain (forall_not_mem_singleton heTops) hRest
      · rw [place, if_neg hlt]
        intro c hc
        rcases List.mem_cons.mp hc with rfl | hc
        · refine ⟨by simp, ?_⟩
          exact hSame.stacked (forall_not_mem_singleton he) hStacked b List.mem_cons_self
        · exact hSame.stacked (forall_not_mem_singleton he) hStacked c (List.mem_cons_of_mem _ hc)

omit [DecidableEq ι] in
/-- The loop over the tops splits the bins at the key of the event. -/
theorem findBin_spec (prev : ι) {curr : Option ι} (hTops : Chain q.nextBin curr (tops bins))
    (hFuel : bins.length < fuel) :
    ∃ before after xs z, bins = before ++ after ∧ (∀ b ∈ before, q.key b.1 < q.key e) ∧
      (∀ b ∈ after.head?, q.key e ≤ q.key b.1) ∧ prev :: tops before = xs ++ [z] ∧
      findBin q e fuel prev curr = .ok (z, (tops after).head?) := by
  induction bins generalizing prev curr fuel with
  | nil =>
    have hcurr : curr = none := hTops
    subst hcurr
    obtain ⟨fuel, rfl⟩ : ∃ f, fuel = f + 1 := ⟨fuel - 1, by simp at hFuel; omega⟩
    exact ⟨[], [], [], prev, rfl, by simp, by simp, rfl, rfl⟩
  | cons b bs ih =>
    obtain ⟨rfl, hRest⟩ := hTops
    obtain ⟨fuel, rfl⟩ : ∃ f, fuel = f + 1 := ⟨fuel - 1, by simp at hFuel; omega⟩
    by_cases hlt : q.lt b.1 e = true
    · obtain ⟨before, after, xs, z, rfl, hB, hA, hz, hfind⟩ :=
        ih b.1 hRest (by simpa using hFuel)
      refine ⟨b :: before, after, prev :: xs, z, rfl, ?_, hA, by simp [← hz], ?_⟩
      · intro c hc
        rcases List.mem_cons.mp hc with rfl | hc
        · exact (lt_iff q _ e).mp hlt
        · exact hB c hc
      · simpa only [findBin, hlt, if_true] using hfind
    · refine ⟨[], b :: bs, [], prev, rfl, by simp, ?_, rfl, by simp [findBin, hlt]⟩
      intro c hc
      cases hc
      rw [lt_iff] at hlt
      exact not_lt.mp hlt

omit [DecidableEq ι] in
/-- The bins from the placed event on: none is smaller than the event, and each has one key. -/
theorem place_key (hs : Sorted q after) (hA : ∀ b ∈ after.head?, q.key e ≤ q.key b.1) {c : Bin ι}
    (hc : c ∈ place q e after) : q.key e ≤ q.key c.1 ∧ ∀ x ∈ c.2, q.key x = q.key c.1 := by
  cases after with
  | nil =>
    rw [List.mem_singleton.mp hc]
    exact ⟨le_rfl, by simp⟩
  | cons b bs =>
    have hle : q.key e ≤ q.key b.1 := hA b rfl
    have hlater : ∀ c ∈ bs, q.key e ≤ q.key c.1 := fun c hc =>
      hle.trans ((List.pairwise_cons.mp hs.increasing).1 c hc).le
    simp only [place] at hc
    split at hc
    · rcases List.mem_cons.mp hc with rfl | hc
      · exact ⟨le_rfl, by simp⟩
      · refine ⟨?_, hs.bin_key c hc⟩
        rcases List.mem_cons.mp hc with rfl | hc
        · exact hle
        · exact hlater c hc
    · rename_i hlt
      have hkey : q.key b.1 = q.key e := by
        rw [lt_iff] at hlt
        exact le_antisymm (not_lt.mp hlt) hle
      rcases List.mem_cons.mp hc with rfl | hc
      · refine ⟨le_rfl, ?_⟩
        intro x hx
        exact (hs.key_eq List.mem_cons_self (List.mem_cons.mp hx)).trans hkey
      · exact ⟨hlater c hc, hs.bin_key c (List.mem_cons_of_mem _ hc)⟩

omit [DecidableEq ι] in
theorem place_increasing (hs : Sorted q after) (hA : ∀ b ∈ after.head?, q.key e ≤ q.key b.1) :
    (place q e after).Pairwise fun b c => q.key b.1 < q.key c.1 := by
  cases after with
  | nil => exact List.pairwise_singleton _ _
  | cons b bs =>
    obtain ⟨hb, hbs⟩ := List.pairwise_cons.mp hs.increasing
    simp only [place]
    split
    · rename_i hlt
      refine List.pairwise_cons.mpr ⟨?_, hs.increasing⟩
      intro c hc
      have hlt' := (lt_iff q e b.1).mp hlt
      rcases List.mem_cons.mp hc with rfl | hc
      · exact hlt'
      · exact hlt'.trans (hb c hc)
    · exact List.pairwise_cons.mpr ⟨fun c hc => lt_of_le_of_lt (hA b rfl) (hb c hc), hbs⟩

omit [DecidableEq ι] in
/-- Bins stay sorted when the event is placed at the split of its key. -/
theorem sorted_place (hs : Sorted q (before ++ after)) (he : e ∉ flat (before ++ after))
    (hB : ∀ b ∈ before, q.key b.1 < q.key e) (hA : ∀ b ∈ after.head?, q.key e ≤ q.key b.1) :
    Sorted q (before ++ place q e after) := by
  refine ⟨?_, ?_, ?_⟩
  · rw [flat_append, flat_place]
    have hnodup := hs.nodup
    rw [flat_append] at hnodup he
    exact List.nodup_middle.mpr (List.nodup_cons.mpr ⟨he, hnodup⟩)
  · intro b hb
    rcases List.mem_append.mp hb with hb | hb
    · exact hs.left.bin_key b hb
    · exact (place_key hs.right hA hb).2
  · refine List.pairwise_append.mpr ⟨hs.left.increasing, place_increasing hs.right hA, ?_⟩
    intro b hb c hc
    exact lt_of_lt_of_le (hB b hb) (place_key hs.right hA hc).1

omit [DecidableEq ι] in
/-- The reading of placed bins is the insertion into the reading. -/
theorem flat_place_eq (before : List (Bin ι)) (hs : Sorted q (before ++ after))
    (hB : ∀ b ∈ before, q.key b.1 < q.key e) (hA : ∀ b ∈ after.head?, q.key e ≤ q.key b.1) :
    flat (before ++ place q e after) = keyedInsert q.key e (flat (before ++ after)) := by
  rw [flat_append, flat_append, flat_place, keyedInsert_append]
  · intro x hx
    obtain ⟨b, hb, hx⟩ := mem_flat.mp hx
    rw [hs.left.key_eq hb hx]
    exact hB b hb
  · intro x hx
    cases after with
    | nil => cases hx
    | cons b bs =>
      cases hx
      exact hA b rfl

/-- The fields of `q'` that an insertion of `e` into `q` leaves alone or sets. -/
structure InsertFrame (e : ι) (q q' : EventQueue ι) : Prop where
  curTick : q'.curTick = q.curTick
  when : q'.when = q.when
  priority : q'.priority = q.priority
  scheduled : q'.scheduled = Function.update q.scheduled e true

/-- The flags after linking `e`. -/
theorem flags_insert (h : Valid q bins) {l : List ι} (hl : ∀ x, x ∈ l ↔ x = e ∨ x ∈ flat bins)
    (x : ι) : Function.update q.scheduled e true x = true ↔ x ∈ l := by
  rw [hl]
  by_cases hx : x = e
  · simp [hx]
  · rw [Function.update_of_ne hx, h.flags x]
    simp [hx]

/-- The invariant after `e` is linked into bins split at its key. -/
theorem valid_placed (before : List (Bin ι)) (h : Valid q (before ++ after))
    (he : e ∉ flat (before ++ after))
    (hB : ∀ b ∈ before, q.key b.1 < q.key e) (hA : ∀ b ∈ after.head?, q.key e ≤ q.key b.1)
    (hFrame : InsertFrame e q q') (hLinked : Linked q' (before ++ place q e after)) :
    Valid q' (before ++ place q e after) where
  toLinked := hLinked
  toSorted := by
    refine (sorted_place h.toSorted he hB hA).of_keys fun x _ => ?_
    simp [EventQueue.key, hFrame.when, hFrame.priority]
  flags := by
    intro x
    rw [hFrame.scheduled]
    refine flags_insert h (fun y => ?_) x
    simp only [flat_append, flat_place, List.mem_append, List.mem_cons]
    tauto

/-- `insert` of an event that is not larger than the head. -/
theorem insert_front (fuel : Nat) (h : Valid q bins) (he : e ∉ flat bins)
    (hFront : ∀ b ∈ bins.head?, q.key e ≤ q.key b.1) :
    ∃ q', EventQueue.insert fuel e q = .ok q' ∧ InsertFrame e q q' ∧
      Linked q' (place q e bins) := by
  obtain ⟨q', hrun, hSame, hTops, hStacked⟩ :=
    insertBefore_spec (q := q.setScheduled e true) h.chain h.stacked he
  have hPlace : place (q.setScheduled e true) e bins = place q e bins := by
    cases bins <;> rfl
  rw [hPlace] at hTops hStacked
  refine ⟨{ q' with head := some e }, ?_,
    ⟨hSame.curTick, hSame.when, hSame.priority, hSame.scheduled⟩, hTops, hStacked⟩
  cases bins with
  | nil =>
    have hhead : q.head = none := h.chain
    rw [hhead] at hrun
    simp only [EventQueue.insert, setScheduled_head, hhead, hrun]
    rfl
  | cons b bs =>
    have hhead : q.head = some b.1 := h.chain.1
    have hle : (q.setScheduled e true).le e b.1 = true := (le_iff q e b.1).mpr (hFront b rfl)
    rw [hhead] at hrun
    simp only [EventQueue.insert, setScheduled_head, hhead, hle, if_true, hrun]
    rfl

/-- `insert` of an event behind the head bin: the loop finds the last smaller top `z`,
`insertBefore` links the event in front of the remaining bins, twice, and `z` is redirected. -/
theorem insert_behind {b : Bin ι} (h : Valid q (b :: bins)) (he : e ∉ flat (b :: bins))
    (hb : q.key b.1 < q.key e) (hFuel : bins.length < fuel) :
    ∃ q' before after, b :: bins = before ++ after ∧
      EventQueue.insert fuel e q = .ok q' ∧ InsertFrame e q q' ∧
      (∀ c ∈ before, q.key c.1 < q.key e) ∧ (∀ c ∈ after.head?, q.key e ≤ q.key c.1) ∧
      Linked q' (before ++ place q e after) := by
  have hhead : q.head = some b.1 := h.chain.1
  have hle : (q.setScheduled e true).le e b.1 = false := by
    rw [Bool.eq_false_iff, ne_eq, le_iff]
    exact not_le.mpr hb
  obtain ⟨before, after, xs, z, rfl, hB, hA, hz, hfind⟩ := findBin_spec b.1 (e := e)
    (q := q.setScheduled e true) h.chain.2 hFuel
  have heSplit : e ∉ flat (b :: before) ∧ e ∉ flat after := by
    rw [← List.cons_append, flat_append] at he
    exact ⟨fun hm => he (List.mem_append_left _ hm), fun hm => he (List.mem_append_right _ hm)⟩
  have hNodup : (flat (b :: before) ++ flat after).Nodup := by
    rw [← flat_append]
    exact h.nodup
  have hAfter : Chain q.nextBin (tops after).head? (tops after) := by
    have hOld : Chain q.nextBin q.head (xs ++ z :: tops after) := by
      have htops := h.chain
      rwa [← List.cons_append, tops_append, tops_cons, hz, List.append_assoc] at htops
    have hdrop := hOld.drop
    rwa [hdrop.head] at hdrop
  have hStacked : Stacked (q.setScheduled e true) after := fun c hc =>
    h.stacked c (List.mem_cons_of_mem _ (List.mem_append_right _ hc))
  obtain ⟨q1, hrun1, hSame1, -, -⟩ :=
    insertBefore_spec (q := q.setScheduled e true) hAfter hStacked heSplit.2
  obtain ⟨q2, hrun2, hSame2, hTops2, hStacked2⟩ :=
    insertBefore_spec (hSame1.chain (forall_not_mem_singleton (not_mem_tops heSplit.2)) hAfter)
      (hSame1.stacked (forall_not_mem_singleton heSplit.2) hStacked) heSplit.2
  have hSame := hSame1.trans hSame2
  have hPlace : place q1 e after = place q e after := by
    rw [hSame1.place]
    cases after <;> rfl
  rw [hPlace] at hTops2 hStacked2
  have hzFlat : z ∈ flat (b :: before) := by
    refine (tops_sublist_flat _).subset ?_
    rw [tops_cons, hz]
    simp
  have hzPlace : z ∉ tops (place q e after) := by
    apply not_mem_tops
    rw [flat_place]
    intro hmem
    rcases List.mem_cons.mp hmem with rfl | hmem
    · exact heSplit.1 hzFlat
    · exact (List.nodup_append.mp hNodup).2.2 z hzFlat z hmem rfl
  refine ⟨q2.setNextBin z (some e), b :: before, after, rfl, ?_,
    ⟨hSame.curTick, hSame.when, hSame.priority, hSame.scheduled⟩, ?_, hA, ?_⟩
  · simp only [EventQueue.insert, setScheduled_head, setScheduled_nextBin, hhead, hle, hfind,
      bind, Except.bind, hrun1, hrun2, Bool.false_eq_true, if_false]
  · intro c hc
    rcases List.mem_cons.mp hc with rfl | hc
    · exact hb
    · exact hB c hc
  · exact Linked.splice (q := q.setScheduled e true) ⟨h.chain, h.stacked⟩
      (by rw [tops_cons, hz]) (List.nodup_append.mp hNodup).1 hSame
      (forall_not_mem_singleton heSplit.1) hTops2 hStacked2 hzPlace

/-- `EventQueue::insert` of an event that is not on the list: it returns, keeps the
invariant, and inserts the event before all entries of equal key. -/
theorem insert_spec (h : Valid q bins) (he : e ∉ flat bins) (hFuel : bins.length < fuel) :
    ∃ q' bins', EventQueue.insert fuel e q = .ok q' ∧ Valid q' bins' ∧ InsertFrame e q q' ∧
      flat bins' = keyedInsert q.key e (flat bins) := by
  by_cases hFront : ∀ b ∈ bins.head?, q.key e ≤ q.key b.1
  · obtain ⟨q', hrun, hFrame, hLinked⟩ := insert_front fuel h he hFront
    exact ⟨q', place q e bins, hrun,
      valid_placed [] h he (by simp) hFront hFrame hLinked, hFrame,
      flat_place_eq [] h.toSorted (by simp) hFront⟩
  · cases bins with
    | nil => simp at hFront
    | cons b bs =>
      have hb : q.key b.1 < q.key e := by simpa using hFront
      obtain ⟨q', before, after, hsplit, hrun, hFrame, hB, hA, hLinked⟩ :=
        insert_behind h he hb (Nat.lt_of_succ_lt hFuel)
      rw [hsplit] at h he ⊢
      exact ⟨q', _, hrun, valid_placed _ h he hB hA hFrame hLinked, hFrame,
        flat_place_eq _ h.toSorted hB hA⟩

end NetSim.Event
