import NetSim.Event.Queue
import NetSim.Library.Chain
import NetSim.Library.KeyedInsert

/-!
# Bins: the shape of the linked structure

A bin is its top together with the events below it. `Linked q bins` says that the tops of
`bins` are the chain from `head` along `nextBin` and that below every top the chain along
`nextInBin` holds the rest of its bin. Members below a top keep whatever `nextBin` they had:
nothing is said about it. `Flattens q l` reads the structure bin by bin and top to bottom.

`Valid q bins` is the invariant of the queue: linked, free of duplicates, one key to a bin,
strictly increasing keys along the tops, and exactly the flagged events on the list.
-/

namespace NetSim.Event

open Library

variable {ι : Type}

/-- The top of a bin and the events below it. -/
abbrev Bin (ι : Type) := ι × List ι

def tops (bins : List (Bin ι)) : List ι := bins.map Prod.fst

/-- All events, bin by bin and top to bottom. -/
def flat (bins : List (Bin ι)) : List ι := bins.flatMap fun b => b.1 :: b.2

@[simp] theorem tops_nil : tops ([] : List (Bin ι)) = [] := rfl

@[simp] theorem tops_cons (b : Bin ι) (bins : List (Bin ι)) :
    tops (b :: bins) = b.1 :: tops bins := rfl

@[simp] theorem tops_append (xs ys : List (Bin ι)) : tops (xs ++ ys) = tops xs ++ tops ys :=
  List.map_append

@[simp] theorem flat_nil : flat ([] : List (Bin ι)) = [] := rfl

@[simp] theorem flat_cons (b : Bin ι) (bins : List (Bin ι)) :
    flat (b :: bins) = b.1 :: (b.2 ++ flat bins) := by
  simp [flat]

@[simp] theorem flat_append (xs ys : List (Bin ι)) : flat (xs ++ ys) = flat xs ++ flat ys :=
  List.flatMap_append

theorem mem_flat {bins : List (Bin ι)} {e : ι} :
    e ∈ flat bins ↔ ∃ b ∈ bins, e = b.1 ∨ e ∈ b.2 := by
  simp [flat]

theorem top_mem_flat {bins : List (Bin ι)} {b : Bin ι} (hb : b ∈ bins) : b.1 ∈ flat bins :=
  mem_flat.mpr ⟨b, hb, Or.inl rfl⟩

theorem below_mem_flat {bins : List (Bin ι)} {b : Bin ι} {e : ι} (hb : b ∈ bins)
    (he : e ∈ b.2) : e ∈ flat bins :=
  mem_flat.mpr ⟨b, hb, Or.inr he⟩

theorem tops_sublist_flat (bins : List (Bin ι)) : (tops bins).Sublist (flat bins) := by
  induction bins with
  | nil => exact .slnil
  | cons b bins ih =>
    simp only [tops_cons, flat_cons]
    exact (ih.trans (List.sublist_append_right _ _)).cons_cons _

/-! ## Linking -/

/-- Below every top of `bins` the chain along `nextInBin` holds the rest of the bin. -/
def Stacked (q : EventQueue ι) (bins : List (Bin ι)) : Prop :=
  ∀ b ∈ bins, Chain q.nextInBin (q.nextInBin b.1) b.2

/-- The structure reached from `head` is `bins`. -/
structure Linked (q : EventQueue ι) (bins : List (Bin ι)) : Prop where
  chain : Chain q.nextBin q.head (tops bins)
  stacked : Stacked q bins

/-- The structure reached from `head` reads as the finite list `l`. -/
def Flattens (q : EventQueue ι) (l : List ι) : Prop := ∃ bins, Linked q bins ∧ flat bins = l

theorem Linked.unique {q : EventQueue ι} {bins bins' : List (Bin ι)} (h : Linked q bins)
    (h' : Linked q bins') : bins = bins' := by
  have hTops := h.chain.unique h'.chain
  have hBins : ∀ xs ys : List (Bin ι), tops xs = tops ys → Stacked q xs →
      Stacked q ys → xs = ys := by
    intro xs
    induction xs with
    | nil =>
      intro ys hxy _ _
      exact (List.map_eq_nil_iff.mp hxy.symm).symm
    | cons b xs ih =>
      intro ys hxy hx hy
      cases ys with
      | nil => cases hxy
      | cons c ys =>
        obtain ⟨htop, hrest⟩ := List.cons.inj hxy
        have hb := hx b List.mem_cons_self
        have hc := hy c List.mem_cons_self
        have hbelow : b.2 = c.2 := Chain.unique (htop ▸ hb) hc
        rw [Prod.ext htop hbelow, ih ys hrest (fun d hd => hx d (List.mem_cons_of_mem _ hd))
          (fun d hd => hy d (List.mem_cons_of_mem _ hd))]
  exact hBins bins bins' hTops h.stacked h'.stacked

/-- The reading of a queue is unique. -/
theorem Flattens.unique {q : EventQueue ι} {l l' : List ι} (h : Flattens q l)
    (h' : Flattens q l') : l = l' := by
  obtain ⟨bins, hb, rfl⟩ := h
  obtain ⟨bins', hb', rfl⟩ := h'
  rw [hb.unique hb']

theorem Stacked.of_agree {q q' : EventQueue ι} {bins : List (Bin ι)}
    (h : Stacked q bins) (hAgree : ∀ e ∈ flat bins, q'.nextInBin e = q.nextInBin e) :
    Stacked q' bins := by
  intro b hb
  rw [hAgree b.1 (top_mem_flat hb)]
  exact (h b hb).congr fun x hx => hAgree x (below_mem_flat hb hx)

/-! ## The invariant of the queue -/

/-- Distinct events, one key to a bin, keys increasing along the tops. -/
structure Sorted (q : EventQueue ι) (bins : List (Bin ι)) : Prop where
  nodup : (flat bins).Nodup
  bin_key : ∀ b ∈ bins, ∀ e ∈ b.2, q.key e = q.key b.1
  increasing : bins.Pairwise fun b c => q.key b.1 < q.key c.1

structure Valid (q : EventQueue ι) (bins : List (Bin ι)) : Prop extends
    Linked q bins, Sorted q bins where
  flags : ∀ e, q.scheduled e = true ↔ e ∈ flat bins

theorem Valid.flattens {q : EventQueue ι} {bins : List (Bin ι)} (h : Valid q bins) :
    Flattens q (flat bins) :=
  ⟨bins, h.toLinked, rfl⟩

theorem init_valid (priority : ι → Priority) : Valid (EventQueue.init priority) [] where
  chain := rfl
  stacked := by intro b hb; cases hb
  nodup := List.nodup_nil
  bin_key := by intro b hb; cases hb
  increasing := List.Pairwise.nil
  flags := by simp [EventQueue.init]

namespace Sorted

variable {q q' : EventQueue ι} {bins before after : List (Bin ι)} {b : Bin ι}

theorem of_keys (h : Sorted q bins) (hKey : ∀ e ∈ flat bins, q'.key e = q.key e) :
    Sorted q' bins where
  nodup := h.nodup
  bin_key := by
    intro b hb e he
    rw [hKey e (below_mem_flat hb he), hKey b.1 (top_mem_flat hb)]
    exact h.bin_key b hb e he
  increasing := by
    refine List.Pairwise.imp_of_mem ?_ h.increasing
    intro b c hb hc hbc
    rwa [hKey b.1 (top_mem_flat hb), hKey c.1 (top_mem_flat hc)]

/-- Every event of a bin has the key of the top. -/
theorem key_eq (h : Sorted q bins) (hb : b ∈ bins) {e : ι} (he : e = b.1 ∨ e ∈ b.2) :
    q.key e = q.key b.1 := by
  rcases he with rfl | he
  · rfl
  · exact h.bin_key b hb e he

theorem left (h : Sorted q (before ++ after)) : Sorted q before where
  nodup := (List.nodup_append.mp (flat_append before after ▸ h.nodup)).1
  bin_key := fun b hb => h.bin_key b (List.mem_append_left _ hb)
  increasing := (List.pairwise_append.mp h.increasing).1

theorem right (h : Sorted q (before ++ after)) : Sorted q after where
  nodup := (List.nodup_append.mp (flat_append before after ▸ h.nodup)).2.1
  bin_key := fun b hb => h.bin_key b (List.mem_append_right _ hb)
  increasing := (List.pairwise_append.mp h.increasing).2.1

/-- The reading of sorted bins is sorted by key. -/
theorem keySorted (h : Sorted q bins) : KeySorted q.key (flat bins) := by
  unfold KeySorted flat
  rw [List.pairwise_flatMap]
  refine ⟨?_, ?_⟩
  · intro b hb
    have hAll : ∀ e ∈ b.1 :: b.2, q.key e = q.key b.1 := fun e he =>
      h.key_eq hb (List.mem_cons.mp he)
    exact List.pairwise_of_forall_mem_list fun x hx y hy => by rw [hAll x hx, hAll y hy]
  · refine List.Pairwise.imp_of_mem ?_ h.increasing
    intro b c hb hc hbc x hx y hy
    rw [h.key_eq hb (List.mem_cons.mp hx), h.key_eq hc (List.mem_cons.mp hy)]
    exact hbc.le

end Sorted

/-! ## Frame lemmas -/

/-- `q'` is `q` up to the link fields of the events in `s`. -/
structure SameOff (s : List ι) (q q' : EventQueue ι) : Prop where
  head : q'.head = q.head
  curTick : q'.curTick = q.curTick
  when : q'.when = q.when
  priority : q'.priority = q.priority
  scheduled : q'.scheduled = q.scheduled
  nextBin : ∀ x, x ∉ s → q'.nextBin x = q.nextBin x
  nextInBin : ∀ x, x ∉ s → q'.nextInBin x = q.nextInBin x

namespace SameOff

variable {s : List ι} {q q' q'' : EventQueue ι} {bins : List (Bin ι)}

theorem trans (h : SameOff s q q') (h' : SameOff s q' q'') : SameOff s q q'' where
  head := h'.head.trans h.head
  curTick := h'.curTick.trans h.curTick
  when := h'.when.trans h.when
  priority := h'.priority.trans h.priority
  scheduled := h'.scheduled.trans h.scheduled
  nextBin := fun x hx => (h'.nextBin x hx).trans (h.nextBin x hx)
  nextInBin := fun x hx => (h'.nextInBin x hx).trans (h.nextInBin x hx)

theorem chain (h : SameOff s q q') {p : Option ι} {xs : List ι} (hs : ∀ x ∈ xs, x ∉ s)
    (hc : Chain q.nextBin p xs) : Chain q'.nextBin p xs :=
  hc.congr fun x hx => h.nextBin x (hs x hx)

theorem stacked (h : SameOff s q q') (hs : ∀ x ∈ flat bins, x ∉ s) (hst : Stacked q bins) :
    Stacked q' bins :=
  hst.of_agree fun x hx => h.nextInBin x (hs x hx)

end SameOff

theorem not_mem_tops {bins : List (Bin ι)} {e : ι} (he : e ∉ flat bins) : e ∉ tops bins :=
  fun h => he ((tops_sublist_flat bins).subset h)

variable [DecidableEq ι]

/-- Writing the time of an event that is not on the list keeps the list. -/
theorem Valid.setWhen {q : EventQueue ι} {bins : List (Bin ι)} (h : Valid q bins) {e : ι}
    (he : e ∉ flat bins) (w : Tick) : Valid (q.setWhen e w) bins where
  chain := h.chain
  stacked := h.stacked
  toSorted := h.toSorted.of_keys fun x hx => by
    have hne : x ≠ e := fun hxe => he (hxe ▸ hx)
    simp [EventQueue.key, EventQueue.setWhen, Function.update_of_ne hne]
  flags := h.flags

/-- Redirecting `nextBin` of the last top `z` of `before` puts the bins `new` behind them.
`q'` may differ from `q` in the links of events off `before`. -/
theorem Linked.splice {q q' : EventQueue ι} {before after new : List (Bin ι)} {s xs : List ι}
    {z : ι} {p : Option ι} (h : Linked q (before ++ after)) (hz : tops before = xs ++ [z])
    (hNodup : (flat before).Nodup) (hSame : SameOff s q q') (hs : ∀ x ∈ flat before, x ∉ s)
    (hNew : Chain q'.nextBin p (tops new)) (hStacked : Stacked q' new)
    (hzNew : z ∉ tops new) : Linked (q'.setNextBin z p) (before ++ new) := by
  have hTopsNodup : (xs ++ [z]).Nodup := hz ▸ (tops_sublist_flat before).nodup hNodup
  have hOld : Chain q.nextBin q.head (xs ++ z :: tops after) := by
    have htops := h.chain
    rwa [tops_append, hz, List.append_assoc] at htops
  refine ⟨?_, ?_⟩
  · rw [tops_append, hz, List.append_assoc]
    change Chain (q'.setNextBin z p).nextBin q'.head _
    rw [hSame.head]
    refine hOld.splice ?_ ?_
    · intro x hx
      have hne : x ≠ z := fun he =>
        (List.nodup_append.mp hTopsNodup).2.2 x hx z List.mem_cons_self he
      have hmem : x ∈ tops before := hz ▸ List.mem_append_left _ hx
      rw [EventQueue.setNextBin_nextBin, Function.update_of_ne hne]
      exact hSame.nextBin x (hs x ((tops_sublist_flat before).subset hmem))
    · rw [EventQueue.setNextBin_nextBin, Function.update_self]
      exact hNew.update p hzNew
  · intro b hb
    rcases List.mem_append.mp hb with hb | hb
    · have hBefore : Stacked q before := fun c hc => h.stacked c (List.mem_append_left _ hc)
      exact hSame.stacked hs hBefore b hb
    · exact hStacked b hb

@[simp] theorem key_setScheduled (q : EventQueue ι) (e : ι) (flag : Bool) :
    (q.setScheduled e flag).key = q.key := rfl

@[simp] theorem key_setNextBin (q : EventQueue ι) (e : ι) (p : Option ι) :
    (q.setNextBin e p).key = q.key := rfl

@[simp] theorem key_setNextInBin (q : EventQueue ι) (e : ι) (p : Option ι) :
    (q.setNextInBin e p).key = q.key := rfl

end NetSim.Event
