import NetSim.Event.Insert

/-!
# `remove` takes one entry off the list

`removeItem` takes an event out of the bin of a given top. Popping the top moves its `nextBin`
to the next member, which had a stale one; removing a member below the top only relinks the
stack. `remove` finds the bin by key, so an event that is not pending is told apart from the
members of a bin of the same key only by the search inside that bin (`remove_notFound`).
`takeHead`, the first half of `serviceOne`, is the removal of the very first entry.
-/

namespace NetSim.Event

open Library EventQueue

variable {ι : Type} [DecidableEq ι] {q q' : EventQueue ι} {e : ι} {fuel : Nat}
  {bins before after : List (Bin ι)} {b : Bin ι}

/-- What is left of the bin `b` without `e`. -/
def without (e : ι) (b : Bin ι) : List (Bin ι) :=
  if e = b.1 then
    match b.2 with
    | [] => []
    | n :: ns => [(n, ns)]
  else [(b.1, b.2.erase e)]

@[simp] theorem flat_without (e : ι) (b : Bin ι) :
    flat (without e b) = (b.1 :: b.2).erase e := by
  obtain ⟨top, below⟩ := b
  by_cases he : e = top
  · cases below <;> simp [without, he]
  · simp [without, he, Ne.symm he]

theorem without_key (hs : Sorted q (before ++ b :: after)) {c : Bin ι}
    (hc : c ∈ without e b) : q.key c.1 = q.key b.1 ∧ ∀ x ∈ c.2, q.key x = q.key b.1 := by
  have hb : b ∈ before ++ b :: after := by simp
  have hKey : ∀ x ∈ b.2, q.key x = q.key b.1 := hs.bin_key b hb
  unfold without at hc
  split at hc
  · split at hc
    · cases hc
    · rename_i n ns hbelow
      rw [List.mem_singleton.mp hc]
      exact ⟨hKey n (by simp [hbelow]), fun x hx => hKey x (by simp [hbelow, hx])⟩
  · rw [List.mem_singleton.mp hc]
    exact ⟨rfl, fun x hx => hKey x (List.mem_of_mem_erase hx)⟩

/-- Bins stay sorted when one of them loses an event. -/
theorem sorted_without (hs : Sorted q (before ++ b :: after)) :
    Sorted q (before ++ (without e b ++ after)) := by
  obtain ⟨hBefore, hCons, hBA⟩ := List.pairwise_append.mp hs.increasing
  obtain ⟨hb, hAfter⟩ := List.pairwise_cons.mp hCons
  refine ⟨?_, ?_, ?_⟩
  · have hsub : (flat (before ++ (without e b ++ after))).Sublist
        (flat (before ++ b :: after)) := by
      simp only [flat_append, flat_without, flat_cons, ← List.cons_append]
      exact (List.Sublist.refl _).append (List.erase_sublist.append (List.Sublist.refl _))
    exact hsub.nodup hs.nodup
  · intro c hc x hx
    rcases List.mem_append.mp hc with hc | hc
    · exact hs.bin_key c (List.mem_append_left _ hc) x hx
    · rcases List.mem_append.mp hc with hc | hc
      · obtain ⟨htop, hbelow⟩ := without_key hs hc
        rw [hbelow x hx, htop]
      · exact hs.bin_key c (List.mem_append_right _ (List.mem_cons_of_mem _ hc)) x hx
  · refine List.pairwise_append.mpr ⟨hBefore, List.pairwise_append.mpr ⟨?_, hAfter, ?_⟩, ?_⟩
    · unfold without
      split
      · split
        · exact List.Pairwise.nil
        · exact List.pairwise_singleton _ _
      · exact List.pairwise_singleton _ _
    · intro c hc d hd
      rw [(without_key hs hc).1]
      exact hb d hd
    · intro c hc d hd
      rcases List.mem_append.mp hd with hd | hd
      · rw [(without_key hs hd).1]
        exact hBA c hc b List.mem_cons_self
      · exact hBA c hc d (List.mem_cons_of_mem _ hd)

/-! ## Inside one bin -/

/-- The loop of `removeItem` finds the member right above the event. -/
theorem findInBin_spec (curr : ι) {next : Option ι} {ys : List ι}
    (h : Chain q.nextInBin next ys) (he : e ∈ ys) (hFuel : ys.length < fuel) :
    ∃ xs zs ws w, ys = xs ++ e :: zs ∧ e ∉ xs ∧ curr :: xs = ws ++ [w] ∧
      findInBin q e fuel curr next = .ok w := by
  induction ys generalizing curr next fuel with
  | nil => cases he
  | cons y ys ih =>
    obtain ⟨rfl, hRest⟩ := h
    obtain ⟨fuel, rfl⟩ : ∃ f, fuel = f + 1 := ⟨fuel - 1, by simp at hFuel; omega⟩
    by_cases hye : y = e
    · subst hye
      exact ⟨[], ys, [], curr, rfl, by simp, rfl, by simp [findInBin]⟩
    · have heys : e ∈ ys := (List.mem_cons.mp he).resolve_left (Ne.symm hye)
      obtain ⟨xs, zs, ws, w, rfl, hxs, hw, hfind⟩ :=
        ih y hRest heys (by simpa using hFuel)
      refine ⟨y :: xs, zs, curr :: ws, w, rfl, ?_, by simp [← hw], ?_⟩
      · simp [hxs, Ne.symm hye]
      · simp [findInBin, hye, hfind]

theorem findInBin_notFound (curr : ι) {next : Option ι} {ys : List ι}
    (h : Chain q.nextInBin next ys) (he : e ∉ ys) (hFuel : ys.length < fuel) :
    findInBin q e fuel curr next = .error (.notFound q) := by
  induction ys generalizing curr next fuel with
  | nil =>
    have hnext : next = none := h
    subst hnext
    obtain ⟨fuel, rfl⟩ : ∃ f, fuel = f + 1 := ⟨fuel - 1, by simp at hFuel; omega⟩
    simp [findInBin]
  | cons y ys ih =>
    obtain ⟨rfl, hRest⟩ := h
    obtain ⟨fuel, rfl⟩ : ∃ f, fuel = f + 1 := ⟨fuel - 1, by simp at hFuel; omega⟩
    have hye : y ≠ e := fun hye => he (hye ▸ List.mem_cons_self)
    have hrest := ih y hRest (fun hm => he (List.mem_cons_of_mem _ hm))
      (by simpa using hFuel)
    simp [findInBin, hye, hrest]

/-- `removeItem` of the top of a bin: the next member takes its place, or the bin is gone. -/
theorem removeItem_top {top : ι} {below : List ι}
    (hChain : Chain q.nextBin (q.nextBin top) (tops after))
    (hBelow : Chain q.nextInBin (q.nextInBin top) below) (hAfter : Stacked q after)
    (hOff : ∀ x ∈ flat after, x ∉ top :: below) :
    ∃ p q', removeItem fuel top top q = .ok (p, q') ∧ SameOff (top :: below) q q' ∧
      Chain q'.nextBin p (tops (without top (top, below) ++ after)) ∧
      Stacked q' (without top (top, below) ++ after) := by
  cases below with
  | nil =>
    have hnone : q.nextInBin top = none := hBelow
    refine ⟨q.nextBin top, q, ?_, ⟨rfl, rfl, rfl, rfl, rfl, fun _ _ => rfl, fun _ _ => rfl⟩, ?_, ?_⟩
    · simp [removeItem, hnone]
    · simpa [without] using hChain
    · simpa [without] using hAfter
  | cons n ns =>
    have hnext : q.nextInBin top = some n := hBelow.1
    have hSame : SameOff (top :: n :: ns) q (q.setNextBin n (q.nextBin top)) := by
      refine ⟨rfl, rfl, rfl, rfl, rfl, fun x hx => Function.update_of_ne ?_ _ _, fun _ _ => rfl⟩
      exact fun hxn => hx (by simp [hxn])
    refine ⟨some n, _, by simp [removeItem, hnext], hSame, ?_, ?_⟩
    · simp only [without, if_true, List.cons_append, List.nil_append, tops_cons]
      refine ⟨rfl, ?_⟩
      rw [setNextBin_nextBin, Function.update_self]
      exact hChain.update _ fun hm => hOff n ((tops_sublist_flat after).subset hm) (by simp)
    · intro c hc
      simp only [without, if_true, List.cons_append, List.nil_append] at hc
      rcases List.mem_cons.mp hc with rfl | hc
      · exact hBelow.2
      · exact hSame.stacked hOff hAfter c hc

/-- `removeItem` of a member below the top: the stack is relinked past it. -/
theorem removeItem_below {top : ι} {below : List ι} (htop : e ≠ top) (he : e ∈ below)
    (hChain : Chain q.nextBin (q.nextBin top) (tops after))
    (hBelow : Chain q.nextInBin (q.nextInBin top) below) (hOwn : (top :: below).Nodup)
    (hAfter : Stacked q after) (hOff : ∀ x ∈ flat after, x ∉ top :: below)
    (hFuel : below.length < fuel) :
    ∃ p q', removeItem fuel e top q = .ok (p, q') ∧ SameOff (top :: below) q q' ∧
      Chain q'.nextBin p (tops (without e (top, below) ++ after)) ∧
      Stacked q' (without e (top, below) ++ after) := by
  obtain ⟨xs, zs, ws, w, rfl, hxs, hw, hfind⟩ := findInBin_spec top hBelow he hFuel
  have hbin (ys : List ι) : top :: (xs ++ ys) = ws ++ w :: ys := by
    rw [← List.cons_append, hw]
    simp
  have hSame : SameOff (top :: (xs ++ e :: zs)) q (q.setNextInBin w (q.nextInBin e)) := by
    refine ⟨rfl, rfl, rfl, rfl, rfl, fun _ _ => rfl, fun x hx => Function.update_of_ne ?_ _ _⟩
    rintro rfl
    exact hx (by simp [hbin])
  have hNew : Chain (q.setNextInBin w (q.nextInBin e)).nextInBin (some top)
      (top :: (xs ++ zs)) := by
    have hOld : Chain q.nextInBin (some top) (top :: (xs ++ e :: zs)) := ⟨rfl, hBelow⟩
    rw [hbin] at hOld hOwn
    rw [hbin]
    exact hOld.unlink hOwn
  refine ⟨some top, _, by simp [removeItem, htop, hfind, bind, Except.bind], hSame, ?_, ?_⟩
  · rw [without, if_neg htop]
    exact ⟨rfl, hChain⟩
  · rw [without, if_neg htop, List.erase_append_right _ hxs, List.erase_cons_head]
    intro c hc
    rcases List.mem_cons.mp hc with rfl | hc
    · exact hNew.2
    · exact hSame.stacked hOff hAfter c hc

/-- `removeItem` of a member of the bin: the pointer it returns heads what is left of the bin
and the bins behind it. -/
theorem removeItem_spec (hChain : Chain q.nextBin (q.nextBin b.1) (tops after))
    (hStacked : Stacked q (b :: after)) (hNodup : (flat (b :: after)).Nodup)
    (he : e = b.1 ∨ e ∈ b.2) (hFuel : b.2.length < fuel) :
    ∃ p q', removeItem fuel e b.1 q = .ok (p, q') ∧ SameOff (b.1 :: b.2) q q' ∧
      Chain q'.nextBin p (tops (without e b ++ after)) ∧ Stacked q' (without e b ++ after) := by
  obtain ⟨top, below⟩ := b
  have hBelow : Chain q.nextInBin (q.nextInBin top) below := hStacked _ List.mem_cons_self
  have hAfter : Stacked q after := fun c hc => hStacked c (List.mem_cons_of_mem _ hc)
  rw [flat_cons, ← List.cons_append] at hNodup
  obtain ⟨hOwn, -, hApart⟩ := List.nodup_append.mp hNodup
  have hOff : ∀ x ∈ flat after, x ∉ top :: below := fun x hx hm => hApart x hm x hx rfl
  by_cases htop : e = top
  · subst htop
    exact removeItem_top hChain hBelow hAfter hOff
  · exact removeItem_below htop (he.resolve_left htop) hChain hBelow hOwn hAfter hOff hFuel

theorem removeItem_notFound (hStacked : Stacked q (b :: after)) (htop : e ≠ b.1)
    (he : e ∉ b.2) (hFuel : b.2.length < fuel) :
    removeItem fuel e b.1 q = .error (.notFound q) := by
  have hfind := findInBin_notFound b.1
    (hStacked b List.mem_cons_self) he hFuel
  simp [removeItem, htop, hfind, bind, Except.bind]

/-! ## The whole list -/

omit [DecidableEq ι] in
/-- Fuel for all events is fuel for the head bin and for the tops behind it. -/
theorem bins_length_lt {b0 : Bin ι} {bs : List (Bin ι)}
    (hFuel : (flat (b0 :: bs)).length < fuel) : b0.2.length < fuel ∧ bs.length < fuel := by
  have hle : (tops bs).length ≤ (flat bs).length := (tops_sublist_flat bs).length_le
  simp only [tops, List.length_map] at hle
  simp only [flat_cons, List.length_cons, List.length_append] at hFuel
  omega

/-- The fields of `q'` that a removal of `e` from `q` leaves alone or sets. -/
structure RemoveFrame (e : ι) (q q' : EventQueue ι) : Prop where
  curTick : q'.curTick = q.curTick
  when : q'.when = q.when
  priority : q'.priority = q.priority
  scheduled : q'.scheduled = Function.update q.scheduled e false

/-- The invariant after `e` is unlinked from its bin `b`. -/
theorem valid_without (before : List (Bin ι)) (h : Valid q (before ++ b :: after))
    (he : e = b.1 ∨ e ∈ b.2) (hLinked : Linked q' (before ++ (without e b ++ after)))
    (hFrame : q'.when = q.when ∧ q'.priority = q.priority ∧
      q'.scheduled = Function.update q.scheduled e false) :
    Valid q' (before ++ (without e b ++ after)) ∧
      flat (before ++ (without e b ++ after)) = (flat (before ++ b :: after)).erase e := by
  have heAll : e ∈ flat (before ++ b :: after) :=
    mem_flat.mpr ⟨b, by simp, he⟩
  have hflat : flat (before ++ (without e b ++ after)) = (flat (before ++ b :: after)).erase e := by
    have hnodup := h.nodup
    simp only [flat_append, flat_cons, ← List.cons_append] at hnodup ⊢
    have heb : e ∈ b.1 :: b.2 := List.mem_cons.mpr he
    have heBefore : e ∉ flat before := fun hm =>
      (List.nodup_append.mp hnodup).2.2 e hm e (List.mem_append_left _ heb) rfl
    rw [List.erase_append_right _ heBefore, List.erase_append_left _ heb, flat_without]
  refine ⟨⟨hLinked, ?_, ?_⟩, hflat⟩
  · refine (sorted_without (e := e) h.toSorted).of_keys fun x _ => ?_
    simp [EventQueue.key, hFrame.1, hFrame.2.1]
  · intro x
    rw [hFrame.2.2, hflat, h.nodup.mem_erase_iff]
    by_cases hx : x = e
    · simp [hx]
    · rw [Function.update_of_ne hx, h.flags x]
      simp [hx]

omit [DecidableEq ι] in
/-- The bin of a pending event is the first whose key is not smaller. -/
theorem mem_bin_of_split (before : List (Bin ι)) (h : Sorted q (before ++ after))
    (he : e ∈ flat (before ++ after))
    (hB : ∀ c ∈ before, q.key c.1 < q.key e) (hA : ∀ c ∈ after.head?, q.key e ≤ q.key c.1) :
    ∃ b rest, after = b :: rest ∧ q.key b.1 = q.key e ∧ (e = b.1 ∨ e ∈ b.2) := by
  obtain ⟨c, hc, hec⟩ := mem_flat.mp he
  have hkey := h.key_eq hc hec
  rcases List.mem_append.mp hc with hc | hc
  · exact absurd hkey (hB c hc).ne'
  · cases after with
    | nil => cases hc
    | cons b rest =>
      rcases List.mem_cons.mp hc with rfl | hc
      · exact ⟨c, rest, rfl, hkey.symm, hec⟩
      · have hlt := (List.pairwise_cons.mp h.right.increasing).1 c hc
        have hle := hA b rfl
        rw [hkey] at hle
        exact absurd hle (not_le.mpr hlt)

/-- `remove` from the head bin. -/
theorem remove_front {b0 : Bin ι} {bs : List (Bin ι)} (h : Valid q (b0 :: bs))
    (heb : e = b0.1 ∨ e ∈ b0.2) (hEq : q.key b0.1 = q.key e) (hFuel : b0.2.length < fuel) :
    ∃ q' bins', remove fuel e q = .ok q' ∧ Valid q' bins' ∧ RemoveFrame e q q' ∧
      flat bins' = (flat (b0 :: bs)).erase e := by
  have hhead : q.head = some b0.1 := h.chain.1
  obtain ⟨p, q', hrun, hSame, hChain, hStacked⟩ := removeItem_spec (e := e)
    (q := q.setScheduled e false) h.chain.2 h.stacked h.nodup heb hFuel
  have heq : (q.setScheduled e false).eq b0.1 e = true := (eq_iff q _ _).mpr hEq
  have hLinked : Linked { q' with head := p } (without e b0 ++ bs) := ⟨hChain, hStacked⟩
  obtain ⟨hValid, hflat⟩ := valid_without [] h heb hLinked
    ⟨hSame.when, hSame.priority, hSame.scheduled⟩
  refine ⟨{ q' with head := p }, _, ?_, hValid,
    ⟨hSame.curTick, hSame.when, hSame.priority, hSame.scheduled⟩, hflat⟩
  simp only [remove, setScheduled_head, hhead, heq, if_true, hrun, bind, Except.bind]

/-- Unlinking `e` from the bin `b` behind the top `z`: `removeItem`, and the write to `nextBin` of
`z`. -/
theorem remove_item_behind {xs : List ι} {z : ι} (h : Valid q (before ++ b :: after))
    (hz : tops before = xs ++ [z]) (heb : e = b.1 ∨ e ∈ b.2) (hFuel : b.2.length < fuel) :
    ∃ p q', removeItem fuel e b.1 (q.setScheduled e false) = .ok (p, q') ∧
      RemoveFrame e q (q'.setNextBin z p) ∧
      Valid (q'.setNextBin z p) (before ++ (without e b ++ after)) ∧
      flat (before ++ (without e b ++ after)) = (flat (before ++ b :: after)).erase e := by
  have hNodup : (flat before ++ flat (b :: after)).Nodup := by
    rw [← flat_append]
    exact h.nodup
  obtain ⟨hNodupL, hNodupR, hApart⟩ := List.nodup_append.mp hNodup
  have hOld : Chain q.nextBin q.head (xs ++ z :: tops (b :: after)) := by
    have htops := h.chain
    rwa [tops_append, hz, List.append_assoc] at htops
  have hStackedR : Stacked (q.setScheduled e false) (b :: after) := fun c hc =>
    h.stacked c (List.mem_append_right _ hc)
  obtain ⟨p, q', hrun, hSame, hChain, hStacked⟩ := removeItem_spec (e := e)
    (q := q.setScheduled e false) hOld.drop.2 hStackedR hNodupR heb hFuel
  have hzFlat : z ∈ flat before := by
    refine (tops_sublist_flat _).subset ?_
    rw [hz]
    simp
  have hOff : ∀ x ∈ flat before, x ∉ b.1 :: b.2 := by
    intro x hx hm
    refine hApart x hx x ?_ rfl
    rw [flat_cons, ← List.cons_append]
    exact List.mem_append_left _ hm
  have hzNew : z ∉ tops (without e b ++ after) := by
    refine not_mem_tops fun hm => ?_
    rw [flat_append, flat_without] at hm
    refine hApart z hzFlat z ?_ rfl
    rw [flat_cons, ← List.cons_append]
    rcases List.mem_append.mp hm with hm | hm
    · exact List.mem_append_left _ (List.mem_of_mem_erase hm)
    · exact List.mem_append_right _ hm
  have hOldLinked : Linked (q.setScheduled e false) (before ++ b :: after) := ⟨h.chain, h.stacked⟩
  have hLinked := hOldLinked.splice hz hNodupL hSame hOff hChain hStacked hzNew
  obtain ⟨hValid, hflat⟩ := valid_without before h heb hLinked
    ⟨hSame.when, hSame.priority, hSame.scheduled⟩
  exact ⟨p, q', hrun, ⟨hSame.curTick, hSame.when, hSame.priority, hSame.scheduled⟩, hValid, hflat⟩

/-- `remove` from a later bin, found by the loop over the tops. -/
theorem remove_behind {b0 : Bin ι} {bs : List (Bin ι)} (h : Valid q (b0 :: bs))
    (he : e ∈ flat (b0 :: bs)) (hEq : q.key b0.1 ≠ q.key e)
    (hFuel : (flat (b0 :: bs)).length < fuel) :
    ∃ q' bins', remove fuel e q = .ok q' ∧ Valid q' bins' ∧ RemoveFrame e q q' ∧
      flat bins' = (flat (b0 :: bs)).erase e := by
  have hhead : q.head = some b0.1 := h.chain.1
  have hlt : q.key b0.1 < q.key e := by
    obtain ⟨c, hc, hec⟩ := mem_flat.mp he
    have hkey := h.toSorted.key_eq hc hec
    rcases List.mem_cons.mp hc with rfl | hc
    · exact absurd hkey.symm hEq
    · rw [hkey]
      exact (List.pairwise_cons.mp h.increasing).1 c hc
  obtain ⟨before, after, xs, z, rfl, hB, hA, hz, hfind⟩ := findBin_spec b0.1 (e := e)
    (q := q.setScheduled e false) h.chain.2 (bins_length_lt hFuel).2
  have hB' : ∀ c ∈ b0 :: before, q.key c.1 < q.key e := by
    intro c hc
    rcases List.mem_cons.mp hc with rfl | hc
    · exact hlt
    · exact hB c hc
  obtain ⟨b, rest, rfl, hbKey, heb⟩ := mem_bin_of_split (b0 :: before) h.toSorted he hB' hA
  have hbLen : b.2.length < fuel := by
    simp only [flat_cons, flat_append, List.length_cons, List.length_append] at hFuel
    omega
  have hzTops : tops (b0 :: before) = xs ++ [z] := by rw [tops_cons, hz]
  obtain ⟨p, q', hrun, hFrame, hValid, hflat⟩ := remove_item_behind h hzTops heb hbLen
  refine ⟨q'.setNextBin z p, _, ?_, hValid, hFrame, hflat⟩
  have heq : (q.setScheduled e false).eq b0.1 e = false := by
    rw [Bool.eq_false_iff, ne_eq, eq_iff]
    exact hEq
  have hne : (q.setScheduled e false).ne b.1 e = false := by
    rw [Bool.eq_false_iff, ne_eq, ne_iff, not_not]
    exact hbKey
  simp only [remove, setScheduled_head, setScheduled_nextBin, hhead, heq, hfind, bind,
    Except.bind, tops_cons, List.head?_cons, hne, hrun, Bool.false_eq_true, if_false]

/-- `EventQueue::remove` of a pending event: it returns, keeps the invariant, and takes
exactly that entry off the list. -/
theorem remove_spec (h : Valid q bins) (he : e ∈ flat bins)
    (hFuel : (flat bins).length < fuel) :
    ∃ q' bins', remove fuel e q = .ok q' ∧ Valid q' bins' ∧ RemoveFrame e q q' ∧
      flat bins' = (flat bins).erase e := by
  cases bins with
  | nil => cases he
  | cons b0 bs =>
    by_cases hEq : q.key b0.1 = q.key e
    · obtain ⟨b, rest, hcons, -, heb⟩ := mem_bin_of_split [] h.toSorted he (by simp) (by simp [hEq])
      cases hcons
      exact remove_front h heb hEq (bins_length_lt hFuel).1
    · exact remove_behind h he hEq hFuel

/-- `EventQueue::remove` of an event that is not pending: it throws, and only the flag of the
event has been written. -/
theorem remove_notFound (h : Valid q bins) (he : e ∉ flat bins)
    (hFuel : (flat bins).length < fuel) :
    remove fuel e q = .error (.notFound (q.setScheduled e false)) := by
  cases bins with
  | nil =>
    have hhead : q.head = none := h.chain
    simp [remove, hhead]
  | cons b0 bs =>
    have hhead : q.head = some b0.1 := h.chain.1
    have hlen := bins_length_lt hFuel
    have hNotIn : ∀ b ∈ b0 :: bs, e ≠ b.1 ∧ e ∉ b.2 := fun b hb =>
      ⟨fun hh => he (hh ▸ top_mem_flat hb), fun hh => he (below_mem_flat hb hh)⟩
    by_cases hEq : (q.setScheduled e false).eq b0.1 e = true
    · have hb0 := hNotIn b0 List.mem_cons_self
      have hStacked : Stacked (q.setScheduled e false) (b0 :: bs) := h.stacked
      have hrun := removeItem_notFound hStacked hb0.1 hb0.2 hlen.1
      simp only [remove, setScheduled_head, hhead, hEq, if_true, hrun, bind, Except.bind]
    · obtain ⟨before, after, xs, z, rfl, -, -, -, hfind⟩ := findBin_spec b0.1 (e := e)
        (q := q.setScheduled e false) h.chain.2 hlen.2
      have heq : (q.setScheduled e false).eq b0.1 e = false := by simpa using hEq
      cases after with
      | nil =>
        simp only [remove, setScheduled_head, setScheduled_nextBin, hhead, heq, hfind, bind,
          Except.bind, tops_nil, List.head?_nil, Bool.false_eq_true, if_false]
      | cons b rest =>
        have hb : b ∈ b0 :: (before ++ b :: rest) := by simp
        have hStackedR : Stacked (q.setScheduled e false) (b :: rest) := fun c hc =>
          h.stacked c (List.mem_cons_of_mem _ (List.mem_append_right _ hc))
        have hbLen : b.2.length < fuel := by
          simp only [flat_cons, flat_append, List.length_cons, List.length_append] at hFuel
          omega
        have hrun := removeItem_notFound hStackedR (hNotIn b hb).1 (hNotIn b hb).2 hbLen
        simp only [remove, setScheduled_head, setScheduled_nextBin, hhead, heq, hfind, bind,
          Except.bind, tops_cons, List.head?_cons, hrun, Bool.false_eq_true, if_false, ite_self]

/-- The first half of `serviceOne`: the first entry is taken off, the clock is set to its
time. -/
theorem takeHead_spec (h : Valid q (b :: after)) :
    ∃ q' bins', q.takeHead = .ok (b.1, q') ∧ Valid q' bins' ∧ q'.curTick = q.when b.1 ∧
      q'.when = q.when ∧ q'.priority = q.priority ∧
      q'.scheduled = Function.update q.scheduled b.1 false ∧ flat bins' = b.2 ++ flat after := by
  have hhead : q.head = some b.1 := h.chain.1
  obtain ⟨p, q', hrun, hSame, hChain, hStacked⟩ := removeItem_spec (e := b.1)
    (q := q.setScheduled b.1 false) h.chain.2 h.stacked h.nodup (Or.inl rfl)
    (Nat.lt_succ_self b.2.length)
  have hLinked : Linked { q' with head := p, curTick := q.when b.1 } (without b.1 b ++ after) :=
    ⟨hChain, hStacked⟩
  obtain ⟨hValid, hflat⟩ := valid_without [] h (Or.inl rfl) hLinked
    ⟨hSame.when, hSame.priority, hSame.scheduled⟩
  refine ⟨_, _, ?_, hValid, rfl, hSame.when, hSame.priority, hSame.scheduled, ?_⟩
  · simp only [removeItem, if_true, setScheduled_nextInBin] at hrun
    simp only [takeHead, hhead]
    cases hnext : q.nextInBin b.1 with
    | none =>
      simp only [hnext, Except.ok.injEq, Prod.mk.injEq] at hrun ⊢
      obtain ⟨rfl, rfl⟩ := hrun
      exact ⟨trivial, rfl⟩
    | some n =>
      simp only [hnext, Except.ok.injEq, Prod.mk.injEq] at hrun ⊢
      obtain ⟨rfl, rfl⟩ := hrun
      exact ⟨trivial, rfl⟩
  · rw [hflat]
    simp

end NetSim.Event
