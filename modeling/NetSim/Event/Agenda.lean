import NetSim.Event.Remove

/-!
# The agenda: what the event queue is for

An agenda is a list of pending events with a clock. Scheduling inserts an event before all
entries of equal `(when, priority)`, descheduling erases it, and a service step takes the
first entry and moves the clock to its time. `Refines q a` relates the linked structure to an
agenda, and every operation of the queue is matched by the operation of the agenda.
-/

namespace NetSim.Event

open Library

variable {ι : Type}

/-- The pending events in the order in which they will be serviced. -/
structure Agenda (ι : Type) where
  pending : List ι
  when : ι → Tick
  priority : ι → Priority
  curTick : Tick

namespace Agenda

def key (a : Agenda ι) (e : ι) : Tick ×ₗ Priority := toLex (a.when e, a.priority e)

def init (priority : ι → Priority) : Agenda ι where
  pending := []
  when := fun _ => 0
  priority := priority
  curTick := 0

/-- The first entry of an agenda is due no later than the others. -/
theorem when_le_of_head (a : Agenda ι) {e y : ι} {rest : List ι}
    (hsorted : KeySorted a.key a.pending) (hp : a.pending = e :: rest) (hy : y ∈ rest) :
    a.when e ≤ a.when y := by
  rw [hp] at hsorted
  have hkey : a.key e ≤ a.key y := (List.pairwise_cons.mp hsorted).1 y hy
  rcases Prod.Lex.toLex_le_toLex.mp hkey with hlt | ⟨heq, -⟩
  · exact Nat.le_of_lt hlt
  · exact Nat.le_of_eq heq

variable [DecidableEq ι]

def setWhen (a : Agenda ι) (event : ι) (when : Tick) : Agenda ι :=
  { a with when := Function.update a.when event when }

def schedule (event : ι) (when : Tick) (a : Agenda ι) : Agenda ι :=
  let a := a.setWhen event when
  { a with pending := keyedInsert a.key event a.pending }

def deschedule (event : ι) (a : Agenda ι) : Agenda ι :=
  { a with pending := a.pending.erase event }

omit [DecidableEq ι] in
/-- The next event to be processed, and the agenda while it is being processed. -/
def takeHead (a : Agenda ι) : Option (ι × Agenda ι) :=
  match a.pending with
  | [] => none
  | e :: rest => some (e, { a with pending := rest, curTick := a.when e })

end Agenda

/-- The linked structure of `q` reads as the agenda `a`. -/
structure Refines (q : EventQueue ι) (a : Agenda ι) : Prop where
  shape : ∃ bins, Valid q bins ∧ flat bins = a.pending
  when : a.when = q.when
  priority : a.priority = q.priority
  curTick : a.curTick = q.curTick

namespace Refines

variable {q : EventQueue ι} {a : Agenda ι} {e : ι}

theorem init (priority : ι → Priority) :
    Refines (EventQueue.init priority) (Agenda.init priority) :=
  ⟨⟨[], init_valid priority, rfl⟩, rfl, rfl, rfl⟩

theorem key (h : Refines q a) : a.key = q.key := by
  ext x
  simp [Agenda.key, EventQueue.key, h.when, h.priority]

theorem flattens (h : Refines q a) : Flattens q a.pending := by
  obtain ⟨bins, hv, hp⟩ := h.shape
  exact hp ▸ hv.flattens

theorem nodup (h : Refines q a) : a.pending.Nodup := by
  obtain ⟨bins, hv, hp⟩ := h.shape
  exact hp ▸ hv.nodup

theorem keySorted (h : Refines q a) : KeySorted q.key a.pending := by
  obtain ⟨bins, hv, hp⟩ := h.shape
  exact hp ▸ hv.toSorted.keySorted

theorem head (h : Refines q a) : q.head = a.pending.head? := by
  obtain ⟨bins, hv, hp⟩ := h.shape
  rw [← hp, hv.chain.head]
  cases bins with
  | nil => rfl
  | cons b bins => simp

theorem mem_pending (h : Refines q a) : e ∈ a.pending ↔ q.scheduled e = true := by
  obtain ⟨bins, hv, hp⟩ := h.shape
  rw [← hp, hv.flags]

variable [DecidableEq ι]

/-- A legal `schedule` returns once it has more fuel than there are pending events. -/
theorem schedule (h : Refines q a) {w : Tick} (he : q.scheduled e = false)
    (hw : q.curTick ≤ w) {fuel : Nat} (hFuel : a.pending.length < fuel) :
    ∃ q', EventQueue.schedule fuel e w q = .ok q' ∧ Refines q' (a.schedule e w) := by
  obtain ⟨bins, hv, hp⟩ := h.shape
  have heBins : e ∉ flat bins := by
    rw [← hv.flags, he]
    simp
  have hlen : bins.length < fuel := by
    have hle : (tops bins).length ≤ (flat bins).length := (tops_sublist_flat bins).length_le
    rw [tops, List.length_map, hp] at hle
    omega
  obtain ⟨q', bins', hrun, hv', hFrame, hflat⟩ := insert_spec (hv.setWhen heBins w) heBins hlen
  have hSetKey : (a.setWhen e w).key = (q.setWhen e w).key := by
    ext x
    simp [Agenda.key, Agenda.setWhen, EventQueue.key, h.when, h.priority]
  refine ⟨q', ?_, ⟨bins', hv', ?_⟩, ?_, ?_, ?_⟩
  · simp only [EventQueue.schedule, he, Bool.false_eq_true, if_false, Nat.not_lt.mpr hw, hrun]
  · rw [hflat, hp, ← hSetKey]
    rfl
  · rw [hFrame.when]
    simp [Agenda.schedule, Agenda.setWhen, h.when]
  · rw [hFrame.priority]
    exact h.priority
  · rw [hFrame.curTick]
    exact h.curTick

/-- What a legal `schedule` changes. -/
theorem schedule_fields (h : Refines q a) {q' : EventQueue ι} {w : Tick}
    (h' : Refines q' (a.schedule e w)) :
    q'.scheduled = Function.update q.scheduled e true ∧ q'.curTick = q.curTick ∧
      q'.when = Function.update q.when e w := by
  refine ⟨?_, ?_, ?_⟩
  · funext x
    rw [Bool.eq_iff_iff, ← h'.mem_pending]
    have hmem : x ∈ (a.schedule e w).pending ↔ x = e ∨ x ∈ a.pending := mem_keyedInsert
    rw [hmem, h.mem_pending]
    by_cases hx : x = e
    · simp [hx]
    · simp [hx]
  · rw [← h'.curTick, ← h.curTick]
    rfl
  · rw [← h'.when, ← h.when]
    rfl

theorem deschedule (h : Refines q a) (he : q.scheduled e = true) {fuel : Nat}
    (hFuel : a.pending.length < fuel) :
    ∃ q', EventQueue.deschedule fuel e q = .ok q' ∧ Refines q' (a.deschedule e) := by
  obtain ⟨bins, hv, hp⟩ := h.shape
  obtain ⟨q', bins', hrun, hv', hFrame, hflat⟩ :=
    remove_spec hv ((hv.flags e).mp he) (hp ▸ hFuel)
  refine ⟨q', hrun, ⟨bins', hv', ?_⟩, ?_, ?_, ?_⟩
  · rw [hflat, hp]
    rfl
  · rw [hFrame.when]
    exact h.when
  · rw [hFrame.priority]
    exact h.priority
  · rw [hFrame.curTick]
    exact h.curTick

/-- `deschedule` of an event that is not pending throws and changes nothing. -/
theorem deschedule_notFound (h : Refines q a) (he : q.scheduled e = false) {fuel : Nat}
    (hFuel : a.pending.length < fuel) :
    EventQueue.deschedule fuel e q = .error (.notFound q) := by
  obtain ⟨bins, hv, hp⟩ := h.shape
  have heBins : e ∉ flat bins := by
    rw [← hv.flags, he]
    simp
  have hflag : q.setScheduled e false = q := by
    have hupd : Function.update q.scheduled e false = q.scheduled := by
      rw [← he, Function.update_eq_self]
    simp [EventQueue.setScheduled, hupd]
  rw [EventQueue.deschedule, remove_notFound hv heBins (hp ▸ hFuel), hflag]

theorem takeHead (h : Refines q a) {rest : List ι} (hcons : a.pending = e :: rest) :
    ∃ q', q.takeHead = .ok (e, q') ∧
      Refines q' { a with pending := rest, curTick := a.when e } := by
  obtain ⟨bins, hv, hp⟩ := h.shape
  cases bins with
  | nil =>
    rw [hcons] at hp
    cases hp
  | cons b bs =>
    rw [hcons, flat_cons] at hp
    obtain ⟨htop, hrest⟩ := List.cons.inj hp
    subst htop
    obtain ⟨q', bins', hrun, hv', hTick, hWhen, hPriority, -, hflat⟩ := takeHead_spec hv
    refine ⟨q', hrun, ⟨bins', hv', by rw [hflat, hrest]⟩, ?_, ?_, ?_⟩
    · rw [hWhen]
      exact h.when
    · rw [hPriority]
      exact h.priority
    · rw [hTick, h.when]

theorem takeHead_eq (h : Refines q a) {q' : EventQueue ι} (hrun : q.takeHead = .ok (e, q')) :
    ∃ rest, a.pending = e :: rest := by
  cases hp : a.pending with
  | nil =>
    obtain ⟨bins, hv, hflat⟩ := h.shape
    rw [hp] at hflat
    cases bins with
    | nil =>
      have hhead : q.head = none := hv.chain
      simp [EventQueue.takeHead, hhead] at hrun
    | cons b bs => simp at hflat
  | cons x rest =>
    obtain ⟨q'', hrun', -⟩ := h.takeHead hp
    rw [hrun'] at hrun
    cases hrun
    exact ⟨rest, rfl⟩

/-- A service step that gets an event takes the first entry of the agenda. -/
theorem takeHead_ok (h : Refines q a) {q' : EventQueue ι} (hrun : q.takeHead = .ok (e, q')) :
    ∃ rest, a.pending = e :: rest ∧ Refines q' { a with pending := rest, curTick := a.when e } := by
  obtain ⟨rest, hcons⟩ := h.takeHead_eq hrun
  obtain ⟨q'', hrun', h'⟩ := h.takeHead hcons
  rw [hrun] at hrun'
  cases hrun'
  exact ⟨rest, hcons, h'⟩

end Refines

/-- What `serviceOne` hands to `process` is the head, at its time. -/
theorem takeHead_head {q q' : EventQueue ι} {e : ι} [DecidableEq ι]
    (h : q.takeHead = .ok (e, q')) : q.head = some e ∧ q'.curTick = q.when e := by
  unfold EventQueue.takeHead at h
  split at h
  · cases h
  · rename_i e' hhead
    cases h
    refine ⟨hhead, ?_⟩
    dsimp only
    split
    · rfl
    · rfl

/-! ## Queues that read as some agenda -/

/-- The linked structure reads as some agenda. -/
def Sound (q : EventQueue ι) : Prop := ∃ a, Refines q a

namespace Sound

variable {q q' : EventQueue ι} {e : ι}

theorem init (priority : ι → Priority) : Sound (EventQueue.init priority) :=
  ⟨_, .init priority⟩

theorem setCurTick (h : Sound q) (t : Tick) : Sound { q with curTick := t } := by
  obtain ⟨a, ⟨bins, hv, hp⟩, hWhen, hPriority, -⟩ := h
  exact ⟨{ a with curTick := t }, ⟨bins, { hv with }, hp⟩, hWhen, hPriority, rfl⟩

variable [DecidableEq ι]

/-- A legal `schedule` returns once there is more fuel than there are event objects, and sets the
flag of the event. -/
theorem schedule (h : Sound q) {w : Tick} (he : q.scheduled e = false) (hw : q.curTick ≤ w)
    {events : List ι} (hAll : ∀ x, x ∈ events) {fuel : Nat} (hFuel : events.length < fuel) :
    ∃ q', EventQueue.schedule fuel e w q = .ok q' ∧ Sound q' ∧
      q'.scheduled = Function.update q.scheduled e true ∧ q'.curTick = q.curTick ∧
      q'.when = Function.update q.when e w := by
  obtain ⟨a, ha⟩ := h
  have hlen : a.pending.length ≤ events.length :=
    (List.subperm_of_subset ha.nodup fun x _ => hAll x).length_le
  obtain ⟨q', hrun, h'⟩ := ha.schedule he hw (Nat.lt_of_le_of_lt hlen hFuel)
  exact ⟨q', hrun, ⟨_, h'⟩, ha.schedule_fields h'⟩

/-- The head is a scheduled event that is due first; its flag is cleared when it is taken, and the
clock moves to its time. -/
theorem takeHead (h : Sound q) (hrun : q.takeHead = .ok (e, q')) :
    Sound q' ∧ q.scheduled e = true ∧ q'.scheduled = Function.update q.scheduled e false ∧
      q'.when = q.when ∧ q'.curTick = q.when e ∧
      ∀ x, q.scheduled x = true → q.when e ≤ q.when x := by
  obtain ⟨a, ha⟩ := h
  obtain ⟨rest, hcons, h'⟩ := ha.takeHead_ok hrun
  have hnodup := ha.nodup
  rw [hcons, List.nodup_cons] at hnodup
  refine ⟨⟨_, h'⟩, ha.mem_pending.mp (by simp [hcons]), ?_, ?_, ?_, ?_⟩
  · ext x
    rw [Bool.eq_iff_iff, ← h'.mem_pending]
    by_cases hx : x = e
    · subst hx
      simp [hnodup.1]
    · simp [hx, ← ha.mem_pending, hcons]
  · rw [← h'.when, ← ha.when]
  · rw [← h'.curTick, ← ha.when]
  · intro x hx
    rw [← ha.mem_pending, hcons] at hx
    rcases List.mem_cons.mp hx with rfl | hx
    · exact Nat.le_refl _
    · rw [← ha.when]
      exact a.when_le_of_head (ha.key ▸ ha.keySorted) hcons hx

/-- What is not after the head is not after any pending event. -/
theorem le_when_of_head (h : Sound q) {t : Tick} (hhead : ∀ e ∈ q.head, t ≤ q.when e) {x : ι}
    (hx : q.scheduled x = true) : t ≤ q.when x := by
  cases hq : q.head with
  | none =>
    obtain ⟨a, ha⟩ := h
    obtain ⟨rest, tail, hcons⟩ := List.exists_cons_of_ne_nil
      (List.ne_nil_of_mem (ha.mem_pending.mpr hx))
    obtain ⟨q', hrun, -⟩ := ha.takeHead hcons
    simp [EventQueue.takeHead, hq] at hrun
  | some e =>
    obtain ⟨q', hrun⟩ : ∃ q', q.takeHead = .ok (e, q') := by
      simp [EventQueue.takeHead, hq]
    exact (hhead e (by simp [hq])).trans ((h.takeHead hrun).2.2.2.2.2 x hx)

end Sound

end NetSim.Event
