import NetSim.Event.Causality

/-!
# `reschedule` of pending events

`EventQueue::reschedule` overwrites the time of its event and inserts it, without taking it out
first. For an event that is not pending this is `schedule`. A pending event is linked a second time
over its own links: either the structure closes on itself and is no finite list any more, or the
event stands on it twice.
-/

namespace NetSim.Event

open Library EventQueue

variable {ι : Type} [DecidableEq ι] {q q' : EventQueue ι} {e : ι} {fuel : Nat}
  {bins : List (Bin ι)}

/-- `reschedule` returns and moves the event: the structure is a finite list with the event on it
exactly once, at the new time, and with the others as before and in the same order. -/
def Moves (q : EventQueue ι) (e : ι) (w : Tick) : Prop :=
  ∃ q' l l', (∃ bound, ∀ fuel, bound ≤ fuel → q.reschedule fuel e w = .ok q') ∧
    Flattens q l ∧ Flattens q' l' ∧ l'.count e = 1 ∧ q'.when e = w ∧
    l'.filter (· ≠ e) = l.filter (· ≠ e) ∧
    ∀ x, x ≠ e → q'.when x = q.when x ∧ q'.priority x = q.priority x

/-! ## Linking an event over its own links -/

/-- The links of `e` become `p` and `s`, which continue at the pointer `curr`. -/
def Relinks (e : ι) (curr : Option ι) (q q' : EventQueue ι) : Prop :=
  ∃ p s, q' = (q.setNextBin e p).setNextInBin e s ∧
    ∀ c, curr = some c → (c ≠ e ∧ p = some c) ∨ (p = q.nextBin c ∧ s = some c)

theorem insertBefore_relinks {curr : Option ι} (hrun : insertBefore e curr q = .ok q') :
    Relinks e curr q q' := by
  unfold insertBefore at hrun
  cases curr with
  | none =>
    simp only [setNextInBin_nextBin, setNextBin_nextBin, Function.update_self, reduceCtorEq,
      if_false] at hrun
    cases hrun
    exact ⟨none, none, rfl, by simp⟩
  | some c =>
    cases hlt : q.lt e c with
    | true =>
      have hce : c ≠ e := by
        rintro rfl
        exact lt_irrefl _ ((lt_iff q _ _).mp hlt)
      simp only [hlt, if_true] at hrun
      split at hrun
      · cases hrun
      · cases hrun
        exact ⟨some c, none, rfl, fun d hd => Or.inl ⟨Option.some.inj hd ▸ hce, hd⟩⟩
    | false =>
      simp only [hlt, Bool.false_eq_true, if_false] at hrun
      split at hrun
      · cases hrun
      · cases hrun
        exact ⟨q.nextBin c, some c, rfl, fun d hd => Or.inr ⟨Option.some.inj hd ▸ rfl, hd⟩⟩

/-- Linking the event again changes nothing that matters. -/
theorem Relinks.trans {curr : Option ι} {q'' : EventQueue ι} (h : Relinks e curr q q')
    (h' : Relinks e curr q' q'') : Relinks e curr q q'' := by
  obtain ⟨p, s, rfl, hlinks⟩ := h
  obtain ⟨p', s', rfl, hlinks'⟩ := h'
  refine ⟨p', s', by simp [setNextBin, setNextInBin], fun c hc => ?_⟩
  rcases hlinks' c hc with h1 | ⟨hp, hs⟩
  · exact Or.inl h1
  · refine Or.inr ⟨?_, hs⟩
    by_cases hce : c = e
    · subst hce
      rcases hlinks c hc with ⟨hne, -⟩ | ⟨hp1, -⟩
      · exact absurd rfl hne
      · rw [hp, ← hp1]
        simp
    · rw [hp]
      simp [hce]

/-- What `insert` does to the links, wherever the event was: it splits the bins behind tops other
than the event, continues the event at the rest, and makes the event a top. -/
structure LinksBetween (e : ι) (before after : List (Bin ι)) (q q' : EventQueue ι) : Prop where
  notTop : e ∉ tops before
  nextInBin : ∀ x, x ≠ e → q'.nextInBin x = q.nextInBin x
  nextBin : ∀ x, x ≠ e → x ∉ tops before → q'.nextBin x = q.nextBin x
  continues : ∀ c, (tops after).head? = some c →
    (c ≠ e ∧ q'.nextBin e = some c) ∨ (q'.nextBin e = q.nextBin c ∧ q'.nextInBin e = some c)
  top : ∀ bins', Linked q' bins' → e ∈ tops bins'

/-- The event is put in front of everything. -/
theorem linksBetween_front {h : ι} {q₁ : EventQueue ι} (hTop : (tops bins).head? = some h)
    (hrun : insertBefore e (some h) (q.setScheduled e true) = .ok q₁) :
    LinksBetween e [] bins q { q₁ with head := some e } := by
  obtain ⟨p, s, rfl, hlinks⟩ := insertBefore_relinks hrun
  refine ⟨by simp, fun x hx => by simp [hx], fun x hx _ => by simp [hx], ?_, ?_⟩
  · intro c hc
    rw [hTop] at hc
    simpa using hlinks c hc
  · intro bins' hl'
    have hchain := hl'.chain.head
    exact List.mem_of_mem_head? (Option.mem_def.mpr hchain.symm)

/-- The event is put behind the top `z`, which then points to it. -/
theorem linksBetween_behind {before after : List (Bin ι)} {xs : List ι} {z : ι}
    {q₁ : EventQueue ι} (hl : Linked q (before ++ after)) (hNodup : (tops before).Nodup)
    (hTops : tops before = xs ++ [z]) (hBefore : e ∉ tops before)
    (hlinks : Relinks e (tops after).head? (q.setScheduled e true) q₁) :
    LinksBetween e before after q (q₁.setNextBin z (some e)) := by
  obtain ⟨p, s, rfl, hlinks⟩ := hlinks
  have hze : z ≠ e := fun hze => hBefore (by simp [hTops, hze])
  refine ⟨hBefore, fun x hx => by simp [hx], ?_, ?_, ?_⟩
  · intro x hx hmem
    have hxz : x ≠ z := fun hxz => hmem (by simp [hTops, hxz])
    simp [hx, hxz]
  · intro c hc
    simpa [hze.symm] using hlinks c hc
  · -- the walk along the old tops comes to the last of them, and from there to the event
    intro bins' hl'
    have hOld : Chain q.nextBin q.head (xs ++ z :: tops after) := by
      have hchain := hl.chain
      rwa [tops_append, hTops, List.append_assoc] at hchain
    have hmem : z ∈ tops bins' := by
      refine hOld.mem_of_agree (fun x hx => ?_) hl'.chain
      have hxe : x ≠ e := fun hxe => hBefore (by simp [hTops, ← hxe, hx])
      have hxz : x ≠ z := by
        rw [hTops] at hNodup
        exact (List.nodup_append.mp hNodup).2.2 x hx z List.mem_cons_self
      simp [hxe, hxz]
    exact hl'.chain.next_mem hmem (by simp)

theorem insert_links {h : ι} (hl : Linked q bins) (hNodup : (flat bins).Nodup)
    (hhead : q.head = some h) (hFuel : bins.length < fuel)
    (hrun : EventQueue.insert fuel e q = .ok q') :
    ∃ before after, bins = before ++ after ∧ LinksBetween e before after q q' := by
  have hTop : (tops bins).head? = some h := by rw [← hl.chain.head, hhead]
  simp only [EventQueue.insert, setScheduled_head, hhead, bind, Except.bind] at hrun
  split at hrun
  · split at hrun
    · cases hrun
    · rename_i q1 hrun1
      cases hrun
      exact ⟨[], bins, rfl, linksBetween_front hTop hrun1⟩
  · rename_i hle
    obtain ⟨b, bs, rfl⟩ : ∃ b bs, bins = b :: bs := by
      cases bins with
      | nil => cases hTop
      | cons b bs => exact ⟨b, bs, rfl⟩
    have hb : b.1 = h := by simpa using hTop
    have hlength : bs.length < fuel := by
      simp only [List.length_cons] at hFuel
      omega
    obtain ⟨before, after, xs, z, rfl, hB, -, hz, hfind⟩ := findBin_spec h (e := e)
      (q := q.setScheduled e true) (hb ▸ hl.chain.2) hlength
    simp only [setScheduled_nextBin] at hrun hfind
    rw [hfind] at hrun
    dsimp only at hrun
    -- the tops in front of the place that `findBin` returns are smaller than the event
    have hBefore : e ∉ tops (b :: before) := by
      intro hmem
      rcases List.mem_cons.mp hmem with rfl | hmem
      · exact hle ((le_iff _ _ _).mpr (hb ▸ le_rfl))
      · obtain ⟨c, hc, rfl⟩ := List.mem_map.mp hmem
        exact lt_irrefl _ (hB c hc)
    have hTops : tops (b :: before) = xs ++ [z] := by rw [← hz, tops_cons, hb]
    have hnodup : (tops (b :: before)).Nodup := by
      have htops := (tops_sublist_flat _).nodup hNodup
      rw [← List.cons_append, tops_append] at htops
      exact (List.nodup_append.mp htops).1
    split at hrun
    · cases hrun
    · rename_i q1 hrun1
      split at hrun
      · cases hrun
      · rename_i q2 hrun2
        cases hrun
        refine ⟨b :: before, after, rfl, linksBetween_behind hl hnodup hTops hBefore ?_⟩
        exact (insertBefore_relinks hrun1).trans (insertBefore_relinks hrun2)

/-! ## A pending event does not move -/

omit [DecidableEq ι] in
/-- An event with `nextInBin` to itself is the top of no finite bin. -/
theorem Stacked.no_loop (h : Stacked q bins) {b : Bin ι} (hb : b ∈ bins)
    (hloop : q.nextInBin b.1 = some b.1) : False := by
  have hchain := h b hb
  have hmem : b.1 ∈ b.2 :=
    List.mem_of_mem_head? (Option.mem_def.mpr (hchain.head.symm.trans hloop))
  refine hchain.not_closed (· = b.1) hmem rfl ?_
  rintro y rfl
  exact ⟨b.1, hloop, rfl⟩

theorem count_flat (e : ι) (bins : List (Bin ι)) :
    (flat bins).count e = (tops bins).count e + (bins.flatMap Prod.snd).count e := by
  induction bins with
  | nil => rfl
  | cons b bins ih =>
    simp only [flat_cons, tops_cons, List.flatMap_cons, List.count_cons, List.count_append, ih]
    omega

omit [DecidableEq ι] in
/-- An old top that is linked again closes a circle of tops, or a bin on itself. -/
theorem top_twice {before after bins' : List (Bin ι)} (hl : Linked q (before ++ after))
    (hNodup : (flat (before ++ after)).Nodup) (he : e ∈ tops after)
    (hlinks : LinksBetween e before after q q') (hl' : Linked q' bins') : False := by
  have htops : (tops before ++ tops after).Nodup := by
    rw [← tops_append]
    exact (tops_sublist_flat _).nodup hNodup
  obtain ⟨mid, rest, hmid⟩ := List.append_of_mem he
  have hchain : Chain q.nextBin q.head (tops before ++ (mid ++ e :: rest)) := by
    rw [← hmid, ← tops_append]
    exact hl.chain
  cases mid with
  | nil =>
    -- the event is the first top of the rest: it is put on top of itself
    obtain ⟨b', hb', rfl⟩ := List.mem_map.mp (hlinks.top bins' hl')
    rcases hlinks.continues b'.1 (by simp [hmid]) with ⟨hne, -⟩ | ⟨-, hloop⟩
    · exact hne rfl
    · exact hl'.stacked.no_loop hb' hloop
  | cons c mid =>
    -- the tops from the first one of the rest to the event lead back to the first one
    rw [hmid] at htops
    obtain ⟨-, hmidNodup, hapart⟩ := List.nodup_append.mp htops
    have hfront : ∀ y ∈ c :: mid, ∃ z, q.nextBin y = some z ∧ (z = e ∨ z ∈ c :: mid) := by
      intro y hy
      obtain ⟨p, hp⟩ := hchain.of_append
      exact hp.next_of_mem_front hy
    refine hl'.chain.not_closed (fun y => y = e ∨ y ∈ c :: mid) (hlinks.top bins' hl')
      (Or.inl rfl) ?_
    rintro y (rfl | hy)
    · rcases hlinks.continues c (by simp [hmid]) with ⟨-, hnext⟩ | ⟨hnext, -⟩
      · exact ⟨c, hnext, Or.inr List.mem_cons_self⟩
      · rw [hnext]
        exact hfront c List.mem_cons_self
    · have hye : y ≠ e := by
        rintro rfl
        exact (List.nodup_append.mp hmidNodup).2.2 y hy y List.mem_cons_self rfl
      have hyBefore : y ∉ tops before := fun hm =>
        hapart y hm y (List.mem_append_left _ hy) rfl
      rw [hlinks.nextBin y hye hyBefore]
      exact hfront y hy

/-- An event below a top that is linked again stands on the list twice. -/
theorem below_twice {b : Bin ι} {bins' : List (Bin ι)} (hl : Linked q bins) (hb : b ∈ bins)
    (he : e ∈ b.2) (hNext : ∀ x, x ≠ e → q'.nextInBin x = q.nextInBin x)
    (hl' : Linked q' bins') (htop : e ∈ tops bins')
    (hothers : ∀ x ∈ flat bins, x ≠ e → x ∈ flat bins') : 2 ≤ (flat bins').count e := by
  have hchain := hl.stacked b hb
  obtain ⟨x, hx, hnext⟩ := hchain.exists_prev he
  have hxe : x ≠ e := by
    rintro rfl
    refine hchain.not_closed (· = x) he rfl ?_
    rintro y rfl
    exact ⟨y, hnext, rfl⟩
  have hxFlat : x ∈ flat bins := mem_flat.mpr ⟨b, hb, by simpa using hx⟩
  obtain ⟨b', hb', hx'⟩ := mem_flat.mp (hothers x hxFlat hxe)
  have hnext' : q'.nextInBin x = some e := by rw [hNext x hxe, hnext]
  have hbelow : e ∈ b'.2 := by
    rcases hx' with rfl | hx'
    · exact List.mem_of_mem_head?
        (Option.mem_def.mpr ((hl'.stacked b' hb').head.symm.trans hnext'))
    · exact (hl'.stacked b' hb').next_mem hx' hnext'
  have h1 : 0 < (tops bins').count e := List.count_pos_iff.mpr htop
  have h2 : 0 < (bins'.flatMap Prod.snd).count e :=
    List.count_pos_iff.mpr (List.mem_flatMap.mpr ⟨b', hb', hbelow⟩)
  rw [count_flat]
  omega

/-- `reschedule` passes the time on to `insert`. -/
theorem reschedule_ok {w : Tick} (hrun : q.reschedule fuel e w = .ok q') :
    q.curTick ≤ w ∧ EventQueue.insert fuel e (q.setWhen e w) = .ok q' := by
  unfold reschedule at hrun
  split at hrun
  · cases hrun
  · rename_i hw
    exact ⟨Nat.not_lt.mp hw, hrun⟩

/-- A pending event does not move. -/
theorem not_moves_of_pending {a : Agenda ι} {w : Tick} (ha : Refines q a)
    (he : q.scheduled e = true) : ¬ Moves q e w := by
  rintro ⟨q', l, l', ⟨bound, hrun⟩, hl, ⟨bins', hl', rfl⟩, hcount, -, hfilter, -⟩
  obtain ⟨bins, hv, hp⟩ := ha.shape
  have hflat : l = flat bins := hl.unique hv.flattens
  subst hflat
  have heFlat : e ∈ flat bins := (hv.flags e).mp he
  obtain ⟨b, bs, rfl⟩ : ∃ b bs, bins = b :: bs := by
    cases bins with
    | nil => cases heFlat
    | cons b bs => exact ⟨b, bs, rfl⟩
  have hrun' := (reschedule_ok (hrun (max bound ((b :: bs).length + 1)) (Nat.le_max_left _ _))).2
  obtain ⟨before, after, hsplit, hlinks⟩ :=
    insert_links (q := q.setWhen e w) ⟨hv.chain, hv.stacked⟩ hv.nodup hv.chain.1
      (Nat.lt_of_lt_of_le (Nat.lt_succ_self _) (Nat.le_max_right _ _)) hrun'
  have hothers : ∀ x ∈ flat (b :: bs), x ≠ e → x ∈ flat bins' := by
    intro x hx hxe
    have hmem : x ∈ (flat bins').filter (· ≠ e) := by
      rw [hfilter]
      exact List.mem_filter.mpr ⟨hx, by simpa using hxe⟩
    exact (List.mem_filter.mp hmem).1
  obtain ⟨c, hc, hec⟩ := mem_flat.mp heFlat
  rcases hec with rfl | hbelow
  · have hafter : c.1 ∈ tops after := by
      have hmem : c.1 ∈ tops (before ++ after) := hsplit ▸ List.mem_map_of_mem hc
      rw [tops_append] at hmem
      exact (List.mem_append.mp hmem).resolve_left hlinks.notTop
    rw [hsplit] at hv
    have hold : Linked (q.setWhen c.1 w) (before ++ after) := ⟨hv.chain, hv.stacked⟩
    exact top_twice hold hv.nodup hafter hlinks hl'
  · have htwice := below_twice hv.toLinked hc hbelow hlinks.nextInBin hl'
      (hlinks.top bins' hl') hothers
    omega

/-- An event that is not pending moves. -/
theorem moves_of_idle {a : Agenda ι} {w : Tick} (ha : Refines q a) (he : q.scheduled e = false)
    (hw : q.curTick ≤ w) : Moves q e w := by
  obtain ⟨q', hrun, h'⟩ := ha.schedule he hw (Nat.lt_succ_self a.pending.length)
  have hWhen : q'.when = Function.update q.when e w := by
    rw [← h'.when, ← ha.when]
    rfl
  have hPriority : q'.priority = q.priority := by
    rw [← h'.priority, ← ha.priority]
    rfl
  have hfilter : (a.schedule e w).pending.filter (· ≠ e) = a.pending.filter (· ≠ e) :=
    filter_keyedInsert (by simp)
  refine ⟨q', a.pending, (a.schedule e w).pending, ⟨a.pending.length + 1, fun fuel hFuel => ?_⟩,
    ha.flattens, h'.flattens, ?_, by simp [hWhen], hfilter,
    fun x hx => by simp [hWhen, hPriority, hx]⟩
  · obtain ⟨k, rfl⟩ := Nat.exists_eq_add_of_le hFuel
    rw [reschedule_eq_schedule he]
    exact ((schedule_stable e w q) (by simp [hrun]) k).trans hrun
  · exact List.count_eq_one_of_mem h'.nodup (mem_keyedInsert.mpr (Or.inl rfl))

/-- The only pending event is rescheduled: it is linked below itself. -/
theorem pending_event_not_moved :
    ∃ s : Logged Unit, Reach Logged.Step Free (.start fun _ => 0) s ∧
      s.queue.curTick ≤ 1 ∧ ¬ Moves s.queue () 1 ∧
      ∃ q', s.queue.reschedule 1 () 1 = .ok q' ∧ q'.head = some () ∧
        q'.nextInBin () = some () := by
  have hstep : Logged.Step (.start fun _ : Unit => 0) (.schedule () 0) ⟨_, [.schedule () 0]⟩ :=
    ⟨@EntryStep.schedule Unit _ _ _ 1 () 0 rfl, rfl⟩
  obtain ⟨a, -, ha⟩ := hstep.1.simulates (by simp [Logged.Idle]) (Refines.init _)
  refine ⟨_, .next _ .start trivial hstep, by decide, ?_, _, rfl, rfl, rfl⟩
  exact not_moves_of_pending ha rfl

/-- **Rescheduling.** In every state of every run in which `reschedule` was called for events that
were not pending only, a call of `reschedule` with a legal time moves its event if and only if the
event is not pending. -/
theorem reschedule_moves_iff {priority : ι → Priority} {s : Logged ι}
    (h : Reach Logged.Step Logged.Idle (.start priority) s) (e : ι) {w : Tick}
    (hw : s.queue.curTick ≤ w) : Moves s.queue e w ↔ s.queue.scheduled e = false := by
  have hsound : Sound s.queue := by
    refine h.invariant (fun s => Sound s.queue) (Sound.init priority) ?_
    intro s x s' _ hs hok hstep
    obtain ⟨a, ha⟩ := hs
    obtain ⟨a', -, ha'⟩ := hstep.1.simulates hok ha
    exact ⟨a', ha'⟩
  obtain ⟨a, ha⟩ := hsound
  constructor
  · intro hmoves
    rw [Bool.eq_false_iff]
    intro he
    exact not_moves_of_pending ha he hmoves
  · intro he
    exact moves_of_idle ha he hw

/-- An event that was processed is rescheduled. -/
theorem reschedule_moves_processed :
    ∃ s : Logged Unit, Reach Logged.Step Logged.Idle (.start fun _ => 0) s ∧
      s.log = [.process () 2, .schedule () 2] ∧ s.queue.curTick ≤ 5 ∧ Moves s.queue () 5 := by
  have h1 : Logged.Step (.start fun _ : Unit => 0) (.schedule () 2) ⟨_, [.schedule () 2]⟩ :=
    ⟨@EntryStep.schedule Unit _ _ _ 1 () 2 rfl, rfl⟩
  have h2 : Reach Logged.Step Logged.Idle (.start fun _ : Unit => 0)
      ⟨_, [.process () 2, .schedule () 2]⟩ :=
    (Reach.next _ .start (by simp [Logged.Idle]) h1).next _ (by simp [Logged.Idle])
      ⟨.process rfl, rfl⟩
  exact ⟨_, h2, rfl, by decide, (reschedule_moves_iff h2 () (by decide)).mpr rfl⟩

end NetSim.Event
