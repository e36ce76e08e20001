import NetSim.Library.Reach
import NetSim.Probe.Manager

/-!
# What is attached to a point

The calls of the manager are recorded in a log, latest first. From the log one can tell which
listeners a point should hold: those of its type that were added under its name while it was
registered and that were not removed since, in the order in which they were added.

The lists agree with the log, and `notify` calls each listener once, as long as two things do not
happen. A listener of another type is added under the name of a point: the cast gives null, and the
null pointer is kept. Or a listener is destroyed by its deleter, which removes it under its own
name, while it is attached under another name.
-/

namespace NetSim.Probe

open Library

variable {α π ι : Type}

/-- What a call has done. -/
inductive ProbeEvent (α π ι : Type)
  /-- `addPoint(p)` was called. -/
  | point (p : π)
  /-- The listener `obj` at `l` was added under the name. -/
  | added (name : String) (l : ι) (obj : Listener α)
  /-- The listener at `l` was removed under the name. -/
  | removed (name : String) (l : ι)

/-- The probes and the log. -/
structure Traced (α π ι : Type) where
  probes : Probes α π ι
  log : List (ProbeEvent α π ι)

def Traced.init (objects : ι → Option (Listener α)) : Traced α π ι := ⟨.init objects, []⟩

inductive ProbeCall (α π ι : Type)
  | addPoint (p : π)
  | addListener (name : String) (l : ι)
  | removeListener (name : String) (l : ι)
  | connect (l : ι) (obj : Listener α)
  | cleanup (l : ι)

section Step

variable [DecidableEq π] [DecidableEq ι] (decl : π → Point α)

/-- A call. The listeners that are passed exist, and `connect` allocates at a free address. -/
def Traced.call (s : Traced α π ι) : ProbeCall α π ι → Option (Traced α π ι)
  | .addPoint p => some ⟨s.probes.addPoint decl p, .point p :: s.log⟩
  | .addListener name l => (s.probes.objects l).map fun obj =>
    ⟨(s.probes.addListener decl name l obj).2, .added name l obj :: s.log⟩
  | .removeListener name l => (s.probes.objects l).map fun obj =>
    ⟨(s.probes.removeListener decl name l obj).2, .removed name l :: s.log⟩
  | .connect l obj =>
    if (s.probes.objects l).isNone then
      some ⟨s.probes.connect decl l obj, .added obj.name l obj :: s.log⟩
    else none
  | .cleanup l => (s.probes.objects l).map fun obj =>
    ⟨s.probes.cleanup decl l obj, .removed obj.name l :: s.log⟩

end Step

/-! ## What the log says -/

section History

variable (decl : π → Point α)

/-- `p` is the first point of its name. -/
def Registered (log : List (ProbeEvent α π ι)) (p : π) : Prop :=
  ∃ newer older, log = newer ++ .point p :: older ∧
    ∀ q, .point q ∈ older → (decl q).name ≠ (decl p).name

/-- The event adds the listener at `l`, of the type of `p`, under the name of `p`. -/
def Adds (e : ProbeEvent α π ι) (p : π) (l : ι) : Prop :=
  ∃ obj, e = .added (decl p).name l obj ∧ obj.isA (decl p).arg = true

/-- The listener at `l` was added to the point when the log was `older`, and was not removed since;
the predicate `Q` holds of `older`. -/
def AddedSince (log : List (ProbeEvent α π ι)) (p : π) (l : ι)
    (Q : List (ProbeEvent α π ι) → Prop) : Prop :=
  ∃ newer e older, log = newer ++ e :: older ∧ Adds decl e p l ∧ Registered decl older p ∧
    Q older ∧ .removed (decl p).name l ∉ newer

/-- The listener at `l` was added to the point and not removed since. -/
def Attached (log : List (ProbeEvent α π ι)) (p : π) (l : ι) : Prop :=
  AddedSince decl log p l fun _ => True

/-- It was attached by the call number `t`. -/
def AttachedAt (log : List (ProbeEvent α π ι)) (p : π) (l : ι) (t : Nat) : Prop :=
  AddedSince decl log p l fun older => ¬ Attached decl older p l ∧ older.length = t

/-- The list of a point is what the log says. -/
structure Listed (log : List (ProbeEvent α π ι)) (p : π) (list : List (Option ι)) : Prop where
  noNull : none ∉ list
  nodup : list.Nodup
  mem_iff : ∀ l, some l ∈ list ↔ Attached decl log p l
  order : list.Pairwise fun x y => ∀ l l' t t', x = some l → y = some l' →
    AttachedAt decl log p l t → AttachedAt decl log p l' t' → t < t'

/-- A point holds exactly the listeners that are attached to it, in the order in which they were
attached, and `notify` calls each of them once, in this order. -/
structure Exact (s : Traced α π ι) (p : π) : Prop where
  listed : Listed decl s.log p (s.probes.listeners p)
  since : ∀ l, some l ∈ s.probes.listeners p → ∃ t, AttachedAt decl s.log p l t
  notifies : ∀ (V : Type) (val : V), ∃ list : List ι, s.probes.listeners p = list.map some ∧
    s.probes.notify decl p val = some (list.map fun l => (l, val))

end History

variable {decl : π → Point α} {log : List (ProbeEvent α π ι)} {e : ProbeEvent α π ι} {p q : π}
  {l : ι} {list : List (Option ι)} {Q Q' : List (ProbeEvent α π ι) → Prop} {t : Nat}

theorem registered_cons :
    Registered decl (e :: log) p ↔
      (e = .point p ∧ ∀ q, .point q ∈ log → (decl q).name ≠ (decl p).name) ∨
        Registered decl log p := by
  constructor
  · rintro ⟨newer, older, heq, hfirst⟩
    cases newer with
    | nil =>
      obtain ⟨rfl, rfl⟩ := List.cons.inj heq
      exact .inl ⟨rfl, hfirst⟩
    | cons x newer =>
      obtain ⟨rfl, rfl⟩ := List.cons.inj heq
      exact .inr ⟨newer, older, rfl, hfirst⟩
  · rintro (⟨rfl, hfirst⟩ | ⟨newer, older, rfl, hfirst⟩)
    · exact ⟨[], log, rfl, hfirst⟩
    · exact ⟨e :: newer, older, rfl, hfirst⟩

theorem Registered.append {older : List (ProbeEvent α π ι)} (h : Registered decl older p)
    (newer : List (ProbeEvent α π ι)) : Registered decl (newer ++ older) p := by
  induction newer with
  | nil => exact h
  | cons e newer ih => exact registered_cons.mpr (.inr ih)

theorem addedSince_cons :
    AddedSince decl (e :: log) p l Q ↔
      (Adds decl e p l ∧ Registered decl log p ∧ Q log) ∨
        (AddedSince decl log p l Q ∧ e ≠ .removed (decl p).name l) := by
  constructor
  · rintro ⟨newer, x, older, heq, hadds, hreg, hQ, hno⟩
    cases newer with
    | nil =>
      obtain ⟨rfl, rfl⟩ := List.cons.inj heq
      exact .inl ⟨hadds, hreg, hQ⟩
    | cons y newer =>
      obtain ⟨rfl, rfl⟩ := List.cons.inj heq
      rw [List.mem_cons, not_or] at hno
      exact .inr ⟨⟨newer, x, older, rfl, hadds, hreg, hQ, hno.2⟩, Ne.symm hno.1⟩
  · rintro (⟨hadds, hreg, hQ⟩ | ⟨⟨newer, x, older, rfl, hadds, hreg, hQ, hno⟩, hne⟩)
    · exact ⟨[], e, log, rfl, hadds, hreg, hQ, List.not_mem_nil⟩
    · refine ⟨e :: newer, x, older, rfl, hadds, hreg, hQ, ?_⟩
      rw [List.mem_cons, not_or]
      exact ⟨Ne.symm hne, hno⟩

theorem AddedSince.mono (h : AddedSince decl log p l Q) (hQ : ∀ older, Q older → Q' older) :
    AddedSince decl log p l Q' := by
  obtain ⟨newer, x, older, heq, hadds, hreg, hq, hno⟩ := h
  exact ⟨newer, x, older, heq, hadds, hreg, hQ older hq, hno⟩

theorem AttachedAt.attached (h : AttachedAt decl log p l t) : Attached decl log p l :=
  h.mono fun _ _ => trivial

theorem AttachedAt.lt (h : AttachedAt decl log p l t) : t < log.length := by
  obtain ⟨newer, x, older, rfl, -, -, ⟨-, rfl⟩, -⟩ := h
  simp only [List.length_append, List.length_cons]
  omega

/-- What is attached was attached by some call. -/
theorem Attached.exists_attachedAt (h : Attached decl log p l) :
    ∃ t, AttachedAt decl log p l t := by
  induction log with
  | nil =>
    obtain ⟨newer, x, older, heq, -⟩ := h
    simp at heq
  | cons e log ih =>
    by_cases hbefore : Attached decl log p l
    · obtain ⟨t, ht⟩ := ih hbefore
      refine ⟨t, addedSince_cons.mpr (.inr ⟨ht, ?_⟩)⟩
      rintro rfl
      obtain ⟨⟨obj, hobj, -⟩, -⟩ | ⟨-, hne⟩ := addedSince_cons.mp h
      · cases hobj
      · exact hne rfl
    · obtain ⟨hadds, hreg, -⟩ | ⟨hattached, -⟩ := addedSince_cons.mp h
      · exact ⟨log.length, addedSince_cons.mpr (.inl ⟨hadds, hreg, hbefore, rfl⟩)⟩
      · exact absurd hattached hbefore

/-! ## The list after an event -/

/-- An event that has nothing to do with the point. -/
theorem Listed.skip (h : Listed decl log p list) (hadds : ∀ l, ¬ Adds decl e p l)
    (hne : ∀ l, e ≠ .removed (decl p).name l) : Listed decl (e :: log) p list := by
  have hsame : ∀ {l Q}, AddedSince decl (e :: log) p l Q ↔ AddedSince decl log p l Q := by
    intro l Q
    rw [addedSince_cons]
    constructor
    · rintro (⟨h, -⟩ | ⟨h, -⟩)
      · exact absurd h (hadds l)
      · exact h
    · exact fun h => .inr ⟨h, hne l⟩
  exact ⟨h.noNull, h.nodup, fun l => (h.mem_iff l).trans hsame.symm, h.order.imp
    fun hlt l l' t t' hx hy ht ht' => hlt l l' t t' hx hy (hsame.mp ht) (hsame.mp ht')⟩

theorem Listed.point (h : Listed decl log p list) (q : π) :
    Listed decl (.point q :: log) p list := by
  refine h.skip ?_ (by simp)
  rintro l ⟨obj, hadds, -⟩
  cases hadds

/-- Nothing is attached to a point that is not registered. -/
theorem Listed.nil (h : ¬ Registered decl log p) : Listed decl log p [] := by
  refine ⟨List.not_mem_nil, List.nodup_nil, fun l => iff_of_false List.not_mem_nil ?_, .nil⟩
  rintro ⟨newer, x, older, rfl, -, hreg, -⟩
  have hlater := hreg.append (newer ++ [x])
  rw [List.append_assoc] at hlater
  exact h hlater

variable [DecidableEq ι] {obj : Listener α}

omit [DecidableEq ι] in
theorem addedSince_added (hreg : Registered decl log p) (hobj : obj.isA (decl p).arg = true)
    {l' : ι} :
    AddedSince decl (.added (decl p).name l obj :: log) p l' Q ↔
      (l' = l ∧ Q log) ∨ AddedSince decl log p l' Q := by
  rw [addedSince_cons]
  refine or_congr ⟨?_, ?_⟩ ⟨And.left, fun h => ⟨h, nofun⟩⟩
  · rintro ⟨⟨obj', heq, -⟩, -, hQ⟩
    cases heq
    exact ⟨rfl, hQ⟩
  · rintro ⟨rfl, hQ⟩
    exact ⟨⟨obj, rfl, hobj⟩, hreg, hQ⟩

omit [DecidableEq ι] in
theorem addedSince_removed {l' : ι} :
    AddedSince decl (.removed (decl p).name l :: log) p l' Q ↔
      AddedSince decl log p l' Q ∧ l' ≠ l := by
  rw [addedSince_cons]
  constructor
  · rintro (⟨⟨obj, heq, -⟩, -⟩ | ⟨h, hne⟩)
    · cases heq
    · refine ⟨h, ?_⟩
      rintro rfl
      exact hne rfl
  · rintro ⟨h, hne⟩
    refine .inr ⟨h, ?_⟩
    rintro ⟨⟩
    exact hne rfl

theorem Listed.attach (h : Listed decl log p list) (hreg : Registered decl log p)
    (hobj : obj.isA (decl p).arg = true) :
    Listed decl (.added (decl p).name l obj :: log) p (attach (some l) list) := by
  have hsame : ∀ {l' t}, some l' ∈ list →
      AttachedAt decl (.added (decl p).name l obj :: log) p l' t → AttachedAt decl log p l' t := by
    intro l' t hl' ht
    obtain ⟨rfl, hnot, -⟩ | hlog := (addedSince_added hreg hobj).mp ht
    · exact absurd ((h.mem_iff l').mp hl') hnot
    · exact hlog
  have horder := h.order.imp_of_mem (S := fun x y => ∀ l₁ l₂ t t', x = some l₁ → y = some l₂ →
      AttachedAt decl (.added (decl p).name l obj :: log) p l₁ t →
      AttachedAt decl (.added (decl p).name l obj :: log) p l₂ t' → t < t')
    fun hx hy hlt l₁ l₂ t t' hx₁ hy₂ ht ht' =>
      hlt l₁ l₂ t t' hx₁ hy₂ (hsame (hx₁ ▸ hx) ht) (hsame (hy₂ ▸ hy) ht')
  have hmem : ∀ l', Attached decl (.added (decl p).name l obj :: log) p l' ↔
      l' = l ∨ some l' ∈ list := fun l' => by
    rw [Attached, addedSince_added hreg hobj, h.mem_iff, and_true, Attached]
  unfold Probe.attach
  split
  · rename_i hold
    refine ⟨h.noNull, h.nodup, fun l' => ?_, horder⟩
    rw [hmem]
    exact ⟨.inr, fun h => h.elim (fun heq => heq ▸ hold) id⟩
  · rename_i hnew
    refine ⟨by simp [h.noNull], ?_, fun l' => ?_, ?_⟩
    · exact List.nodup_append.mpr ⟨h.nodup, by simp, by
        intro x hx y hy heq
        rw [List.mem_singleton.mp hy] at heq
        exact hnew (heq ▸ hx)⟩
    · rw [hmem, List.mem_append, List.mem_singleton, Option.some.injEq, or_comm]
    · -- the new listener is attached by the call that is recorded
      refine List.pairwise_append.mpr ⟨horder, List.pairwise_singleton _ _, ?_⟩
      rintro x hx y hy l₁ l₂ t t' rfl rfl ht ht'
      have hl₂ := Option.some.inj (List.mem_singleton.mp hy)
      subst hl₂
      obtain ⟨-, -, rfl⟩ | hlog := (addedSince_added hreg hobj).mp ht'
      · exact (hsame hx ht).lt
      · exact absurd ((h.mem_iff _).mpr (AttachedAt.attached hlog)) hnew

theorem Listed.detach (h : Listed decl log p list) :
    Listed decl (.removed (decl p).name l :: log) p (detach (some l) list) := by
  refine ⟨?_, h.nodup.filter _, fun l' => ?_, ?_⟩
  · exact fun hmem => h.noNull (List.mem_filter.mp hmem).1
  · rw [Attached, addedSince_removed, ← Attached, ← h.mem_iff]
    simp [Probe.detach]
  · refine (h.order.imp ?_).filter _
    intro x y hlt l₁ l₂ t t' hx hy ht ht'
    exact hlt l₁ l₂ t t' hx hy (addedSince_removed.mp ht).1 (addedSince_removed.mp ht').1

/-! ## Notification -/

omit [DecidableEq ι] in
theorem exists_map_some (h : none ∉ list) : ∃ ls : List ι, list = ls.map some := by
  induction list with
  | nil => exact ⟨[], rfl⟩
  | cons x list ih =>
    rw [List.mem_cons, not_or] at h
    obtain ⟨ls, rfl⟩ := ih h.2
    obtain ⟨l, rfl⟩ := Option.ne_none_iff_exists'.mp (Ne.symm h.1)
    exact ⟨l :: ls, rfl⟩

omit [DecidableEq ι] in
theorem notifyEach_of_live {s : Probes α π ι} {arg : α} {V : Type} {val : V} {ls : List ι}
    (h : ∀ l ∈ ls, s.Live arg l) :
    s.notifyEach arg val (ls.map some) = some (ls.map fun l => (l, val)) := by
  induction ls with
  | nil => rfl
  | cons l ls ih =>
    rw [List.map_cons, Probes.notifyEach, if_pos (h l List.mem_cons_self),
      ih fun l' hl' => h l' (List.mem_cons_of_mem _ hl')]
    rfl

omit [DecidableEq ι] in
theorem live_of_notifyEach {s : Probes α π ι} {arg : α} {V : Type} {val : V}
    {calls : List (ι × V)} (h : s.notifyEach arg val list = some calls) (hl : some l ∈ list) :
    s.Live arg l := by
  induction list generalizing calls with
  | nil => cases hl
  | cons x list ih =>
    cases x with
    | none => cases h
    | some l' =>
      rw [Probes.notifyEach] at h
      split at h
      · rename_i hlive
        obtain ⟨rest, hrest, -⟩ := Option.map_eq_some_iff.mp h
        rcases List.mem_cons.mp hl with heq | hmem
        · cases heq
          exact hlive
        · exact ih hrest hmem
      · cases h

omit [DecidableEq ι] in
/-- The list is what the log says, and every pointer in it is good. -/
theorem exact_iff {s : Traced α π ι} :
    Exact decl s p ↔ Listed decl s.log p (s.probes.listeners p) ∧
      ∀ l, some l ∈ s.probes.listeners p → s.probes.Live (decl p).arg l := by
  constructor
  · intro h
    refine ⟨h.listed, fun l hl => ?_⟩
    obtain ⟨ls, -, hcalls⟩ := h.notifies Unit ()
    exact live_of_notifyEach hcalls hl
  · rintro ⟨hlisted, hlive⟩
    refine ⟨hlisted, fun l hl => ((hlisted.mem_iff l).mp hl).exists_attachedAt, fun V val => ?_⟩
    obtain ⟨ls, hls⟩ := exists_map_some hlisted.noNull
    refine ⟨ls, hls, ?_⟩
    rw [Probes.notify, hls]
    exact notifyEach_of_live fun l hl => hlive l (hls ▸ List.mem_map_of_mem hl)

/-! ## The points -/

section Points

/-- The manager has the points that the log says, and the lists of the others are empty. -/
structure Tracked (decl : π → Point α) (s : Traced α π ι) : Prop where
  nodup : s.probes.points.Nodup
  registered : ∀ p, p ∈ s.probes.points ↔ Registered decl s.log p
  named : ∀ q, .point q ∈ s.log → ∃ p ∈ s.probes.points, (decl p).name = (decl q).name
  unregistered : ∀ p, p ∉ s.probes.points → s.probes.listeners p = []

omit [DecidableEq ι]

variable {s : Traced α π ι}

theorem init_tracked (objects : ι → Option (Listener α)) :
    Tracked decl (Traced.init objects : Traced α π ι) := by
  refine ⟨List.nodup_nil, fun p => iff_of_false List.not_mem_nil ?_, nofun, fun _ _ => rfl⟩
  rintro ⟨newer, older, heq, -⟩
  simp [Traced.init] at heq

/-- A call that is no `addPoint`, and changes the lists of registered points only. -/
theorem Tracked.keep (h : Tracked decl s) {probes : Probes α π ι} (he : ∀ q, e ≠ .point q)
    (hpoints : probes.points = s.probes.points)
    (hlists : ∀ p, p ∉ s.probes.points → probes.listeners p = s.probes.listeners p) :
    Tracked decl ⟨probes, e :: s.log⟩ where
  nodup := by rw [hpoints]; exact h.nodup
  registered p := by
    rw [hpoints, h.registered, registered_cons]
    exact ⟨.inr, fun hreg => hreg.elim (fun hp => absurd hp.1 (he p)) id⟩
  named q hq := by
    rw [hpoints]
    exact h.named q ((List.mem_cons.mp hq).resolve_left fun heq => he q heq.symm)
  unregistered p hp := by
    rw [hpoints] at hp
    rw [hlists p hp]
    exact h.unregistered p hp

theorem Tracked.setObjects (h : Tracked decl s) (objects : ι → Option (Listener α)) :
    Tracked decl ⟨{ s.probes with objects := objects }, s.log⟩ :=
  ⟨h.nodup, h.registered, h.named, h.unregistered⟩

theorem Tracked.addPoint (h : Tracked decl s) (q : π) :
    Tracked decl ⟨s.probes.addPoint decl q, .point q :: s.log⟩ := by
  have hlogged : ∀ p ∈ s.probes.points, .point p ∈ s.log := by
    intro p hp
    obtain ⟨newer, older, heq, -⟩ := (h.registered p).mp hp
    rw [heq]
    simp
  rcases s.probes.addPoint_cases decl q with ⟨⟨p', hp', hname⟩, heq⟩ | ⟨hfree, heq⟩
  · rw [heq]
    refine ⟨h.nodup, fun p => ?_, fun q' hq' => ?_, h.unregistered⟩
    · rw [h.registered, registered_cons]
      refine ⟨.inr, fun hreg => hreg.resolve_left ?_⟩
      rintro ⟨⟨⟩, hfirst⟩
      exact hfirst p' (hlogged p' hp') hname
    · rcases List.mem_cons.mp hq' with heq | hmem
      · cases heq
        exact ⟨p', hp', hname⟩
      · exact h.named q' hmem
  · rw [heq]
    have hnew : q ∉ s.probes.points := fun hq => hfree q hq rfl
    refine ⟨?_, fun p => ?_, fun q' hq' => ?_, fun p hp => ?_⟩
    · exact List.nodup_append.mpr ⟨h.nodup, by simp, by
        intro x hx y hy heq
        rw [List.mem_singleton.mp hy] at heq
        exact hnew (heq ▸ hx)⟩
    · rw [registered_cons, List.mem_append, List.mem_singleton, h.registered, or_comm]
      refine or_congr ⟨?_, ?_⟩ Iff.rfl
      · rintro rfl
        refine ⟨rfl, fun q' hq' hname => ?_⟩
        obtain ⟨p', hp', hname'⟩ := h.named q' hq'
        exact hfree p' hp' (hname'.trans hname)
      · rintro ⟨⟨⟩, -⟩
        rfl
    · rcases List.mem_cons.mp hq' with heq | hmem
      · cases heq
        exact ⟨q, by simp, rfl⟩
      · obtain ⟨p', hp', hname⟩ := h.named q' hmem
        exact ⟨p', List.mem_append_left _ hp', hname⟩
    · exact h.unregistered p fun hmem => hp (List.mem_append_left _ hmem)

/-- A new point starts with an empty list. -/
theorem addPoint_exact (h : Tracked decl s) (hexact : ∀ p ∈ s.probes.points, Exact decl s p)
    (q : π) : ∀ p ∈ (s.probes.addPoint decl q).points,
      Exact decl ⟨s.probes.addPoint decl q, .point q :: s.log⟩ p := by
  have hkeep : ∀ {p probes}, p ∈ s.probes.points → probes.listeners p = s.probes.listeners p →
      probes.objects = s.probes.objects → Exact decl ⟨probes, .point q :: s.log⟩ p := by
    intro p probes hp hlist hobjects
    obtain ⟨hlisted, hlive⟩ := exact_iff.mp (hexact p hp)
    refine exact_iff.mpr ⟨?_, fun l hl => ?_⟩
    · dsimp only
      rw [hlist]
      exact hlisted.point q
    · obtain ⟨obj, hobj, hisA⟩ := hlive l (hlist ▸ hl)
      exact ⟨obj, hobjects ▸ hobj, hisA⟩
  intro p hp
  rcases s.probes.addPoint_cases decl q with ⟨-, heq⟩ | ⟨hfree, heq⟩
  · rw [heq] at hp ⊢
    exact hkeep hp rfl rfl
  · rw [heq] at hp ⊢
    rcases List.mem_append.mp hp with hmem | hnew
    · exact hkeep hmem rfl rfl
    · obtain rfl := List.mem_singleton.mp hnew
      have hnot : p ∉ s.probes.points := fun hmem => hfree p hmem rfl
      have hlist : s.probes.listeners p = [] := h.unregistered p hnot
      have hnil : Listed decl (.point p :: s.log) p [] :=
        (Listed.nil fun hreg => hnot ((h.registered p).mpr hreg)).point p
      refine exact_iff.mpr ⟨?_, fun l hl => ?_⟩
      · dsimp only
        rw [hlist]
        exact hnil
      · dsimp only at hl
        rw [hlist] at hl
        cases hl

end Points

/-! ## The listeners -/

variable [DecidableEq π] {s : Traced α π ι}

theorem Tracked.addListener (h : Tracked decl s) (name : String) (l : ι) (obj : Listener α) :
    Tracked decl ⟨(s.probes.addListener decl name l obj).2, .added name l obj :: s.log⟩ := by
  rw [Probes.addListener, Probes.forPoints_eq h.nodup]
  exact h.keep (by simp) rfl fun p hp => if_neg fun hmem => hp hmem.1

theorem Tracked.removeListener (h : Tracked decl s) (name : String) (l : ι) (obj : Listener α) :
    Tracked decl ⟨(s.probes.removeListener decl name l obj).2, .removed name l :: s.log⟩ := by
  rw [Probes.removeListener, Probes.forPoints_eq h.nodup]
  exact h.keep (by simp) rfl fun p hp => if_neg fun hmem => hp hmem.1

/-- The points stay exact exactly when the listener has the type of the point of the name. -/
theorem addListener_exact_iff (h : Tracked decl s)
    (hexact : ∀ p ∈ s.probes.points, Exact decl s p) (hobj : s.probes.objects l = some obj)
    (name : String) :
    (∀ p ∈ s.probes.points,
      Exact decl ⟨(s.probes.addListener decl name l obj).2, .added name l obj :: s.log⟩ p) ↔
      ∀ p ∈ s.probes.points, (decl p).name = name → obj.isA (decl p).arg = true := by
  refine forall₂_congr fun p hp => ?_
  obtain ⟨hlisted, hlive⟩ := exact_iff.mp (hexact p hp)
  rw [Probes.addListener, Probes.forPoints_eq h.nodup, exact_iff]
  dsimp only
  by_cases hname : (decl p).name = name
  · subst hname
    rw [if_pos ⟨hp, rfl⟩]
    refine Iff.trans ?_ (forall_prop_of_true rfl).symm
    constructor
    · rintro ⟨hlisted', -⟩
      by_contra hisA
      have hcast : obj.cast l (decl p).arg = none := if_neg hisA
      rw [hcast] at hlisted'
      exact hlisted'.noNull (mem_attach.mpr (.inr rfl))
    · intro hisA
      have hcast : obj.cast l (decl p).arg = some l := if_pos hisA
      rw [hcast]
      refine ⟨hlisted.attach ((h.registered p).mp hp) hisA, fun l' hl' => ?_⟩
      rcases mem_attach.mp hl' with hold | heq
      · exact hlive l' hold
      · cases heq
        exact ⟨obj, hobj, hisA⟩
  · rw [if_neg fun hmem => hname hmem.2]
    refine iff_of_true ⟨?_, hlive⟩ fun heq => absurd heq hname
    refine hlisted.skip ?_ (by simp)
    rintro l' ⟨obj', hadds, -⟩
    cases hadds
    exact hname rfl

/-- The points stay exact, and those of the name do not hold the listener any more. -/
theorem removeListener_exact (h : Tracked decl s)
    (hexact : ∀ p ∈ s.probes.points, Exact decl s p) (hobj : s.probes.objects l = some obj)
    (name : String) (hp : p ∈ s.probes.points) :
    Exact decl ⟨(s.probes.removeListener decl name l obj).2, .removed name l :: s.log⟩ p ∧
      (some l ∈ (s.probes.removeListener decl name l obj).2.listeners p ↔
        some l ∈ s.probes.listeners p ∧ (decl p).name ≠ name) := by
  obtain ⟨hlisted, hlive⟩ := exact_iff.mp (hexact p hp)
  rw [Probes.removeListener, Probes.forPoints_eq h.nodup, exact_iff]
  dsimp only
  by_cases hname : (decl p).name = name
  · subst hname
    rw [if_pos ⟨hp, rfl⟩]
    -- a listener of another type is not in the list, and there is no null pointer to remove
    have hdetach : detach (obj.cast l (decl p).arg) (s.probes.listeners p) =
        detach (some l) (s.probes.listeners p) := by
      unfold Listener.cast
      split
      · rfl
      · rename_i hisA
        rw [detach_of_notMem hlisted.noNull, detach_of_notMem]
        intro hl
        obtain ⟨obj', hobj', hisA'⟩ := hlive l hl
        rw [hobj] at hobj'
        cases hobj'
        exact hisA hisA'
    rw [hdetach]
    refine ⟨⟨hlisted.detach, fun l' hl' => hlive l' (mem_detach.mp hl').1⟩, ?_⟩
    rw [mem_detach]
    simp
  · rw [if_neg fun hmem => hname hmem.2]
    refine ⟨⟨?_, hlive⟩, by simp [hname]⟩
    refine hlisted.skip ?_ fun l' heq => ?_
    · rintro l' ⟨obj', hadds, -⟩
      cases hadds
    · cases heq
      exact hname rfl

omit [DecidableEq π] in
/-- A listener is destroyed. -/
theorem free_exact_iff {probes : Probes α π ι} (hexact : Exact decl ⟨probes, log⟩ p) :
    Exact decl ⟨{ probes with objects := Function.update probes.objects l none }, log⟩ p ↔
      some l ∉ probes.listeners p := by
  obtain ⟨hlisted, hlive⟩ := exact_iff.mp hexact
  rw [exact_iff]
  constructor
  · rintro ⟨-, hlive'⟩ hl
    obtain ⟨obj, hobj, -⟩ := hlive' l hl
    simp at hobj
  · intro hl
    refine ⟨hlisted, fun l' hl' => ?_⟩
    obtain ⟨obj, hobj, hisA⟩ := hlive l' hl'
    refine ⟨obj, ?_, hisA⟩
    have hne : l' ≠ l := by
      rintro rfl
      exact hl hl'
    dsimp only
    rw [Function.update_of_ne hne]
    exact hobj

/-- The clean-up of a listener leaves a point exact unless the point holds it under another name. -/
theorem cleanup_exact_iff (h : Tracked decl s)
    (hexact : ∀ p ∈ s.probes.points, Exact decl s p) (hobj : s.probes.objects l = some obj)
    (hp : p ∈ s.probes.points) :
    Exact decl ⟨s.probes.cleanup decl l obj, .removed obj.name l :: s.log⟩ p ↔
      (some l ∈ s.probes.listeners p → (decl p).name = obj.name) := by
  obtain ⟨hremoved, hmem⟩ := removeListener_exact h hexact hobj obj.name hp
  refine (free_exact_iff hremoved).trans ?_
  rw [hmem, not_and, not_not]

omit [DecidableEq π] in
/-- A listener is created at a free address. -/
theorem alloc_exact {probes : Probes α π ι} (hexact : Exact decl ⟨probes, log⟩ p)
    (hfree : probes.objects l = none) :
    Exact decl ⟨{ probes with objects := Function.update probes.objects l (some obj) }, log⟩ p := by
  obtain ⟨hlisted, hlive⟩ := exact_iff.mp hexact
  refine exact_iff.mpr ⟨hlisted, fun l' hl' => ?_⟩
  obtain ⟨obj', hobj, hisA⟩ := hlive l' hl'
  refine ⟨obj', ?_, hisA⟩
  have hne : l' ≠ l := by
    rintro rfl
    rw [hobj] at hfree
    cases hfree
  dsimp only
  rw [Function.update_of_ne hne]
  exact hobj

/-! ## Runs -/

/-- A listener that is added has the type of the point of the name, and a listener that is destroyed
is attached under its own name only. -/
def Fits (decl : π → Point α) (s : Traced α π ι) : ProbeCall α π ι → Prop
  | .addListener name l => ∀ obj, s.probes.objects l = some obj →
    ∀ p ∈ s.probes.points, (decl p).name = name → obj.isA (decl p).arg = true
  | .connect _ obj => ∀ p ∈ s.probes.points, (decl p).name = obj.name → obj.isA (decl p).arg = true
  | .cleanup l => ∀ obj, s.probes.objects l = some obj →
    ∀ p ∈ s.probes.points, some l ∈ s.probes.listeners p → (decl p).name = obj.name
  | .addPoint _ | .removeListener _ _ => True

/-- Every registered point is exact. -/
def AllExact (decl : π → Point α) (s : Traced α π ι) : Prop :=
  ∀ p ∈ s.probes.points, Exact decl s p

variable {s' : Traced α π ι} {c : ProbeCall α π ι}

theorem call_tracked (h : Tracked decl s) (hcall : s.call decl c = some s') : Tracked decl s' := by
  cases c with
  | addPoint p =>
    cases hcall
    exact h.addPoint p
  | addListener name l =>
    obtain ⟨obj, -, rfl⟩ := Option.map_eq_some_iff.mp hcall
    exact h.addListener name l obj
  | removeListener name l =>
    obtain ⟨obj, -, rfl⟩ := Option.map_eq_some_iff.mp hcall
    exact h.removeListener name l obj
  | connect l obj =>
    simp only [Traced.call] at hcall
    split at hcall
    · cases hcall
      exact (h.setObjects _).addListener obj.name l obj
    · cases hcall
  | cleanup l =>
    obtain ⟨obj, -, rfl⟩ := Option.map_eq_some_iff.mp hcall
    exact (h.removeListener obj.name l obj).setObjects _

/-- A call keeps the points exact if and only if its listener fits. -/
theorem call_exact_iff (h : Tracked decl s) (hexact : AllExact decl s)
    (hcall : s.call decl c = some s') : AllExact decl s' ↔ Fits decl s c := by
  cases c with
  | addPoint p =>
    cases hcall
    exact iff_of_true (addPoint_exact h hexact p) trivial
  | addListener name l =>
    obtain ⟨obj, hobj, rfl⟩ := Option.map_eq_some_iff.mp hcall
    have hiff := addListener_exact_iff h hexact hobj name
    unfold AllExact Fits
    rw [Probes.addListener_points h.nodup, hiff]
    constructor
    · rintro hfits obj' hobj'
      rw [hobj] at hobj'
      cases hobj'
      exact hfits
    · intro hfits
      exact hfits obj hobj
  | removeListener name l =>
    obtain ⟨obj, hobj, rfl⟩ := Option.map_eq_some_iff.mp hcall
    refine iff_of_true (fun p hp => ?_) trivial
    rw [Probes.removeListener_points h.nodup] at hp
    exact (removeListener_exact h hexact hobj name hp).1
  | connect l obj =>
    simp only [Traced.call] at hcall
    split at hcall
    · rename_i hfree
      cases hcall
      have hfree := Option.isNone_iff_eq_none.mp hfree
      have h₁ := h.setObjects (Function.update s.probes.objects l (some obj))
      have hiff := addListener_exact_iff h₁ (fun p hp => alloc_exact (hexact p hp) hfree)
        (Function.update_self ..) obj.name
      unfold AllExact
      rw [Probes.connect, Probes.addListener_points h₁.nodup]
      exact hiff
    · cases hcall
  | cleanup l =>
    obtain ⟨obj, hobj, rfl⟩ := Option.map_eq_some_iff.mp hcall
    have hpoints : (s.probes.cleanup decl l obj).points = s.probes.points :=
      Probes.removeListener_points h.nodup
    unfold AllExact Fits
    rw [hpoints]
    constructor
    · rintro hall obj' hobj' p hp
      rw [hobj] at hobj'
      cases hobj'
      exact (cleanup_exact_iff h hexact hobj hp).mp (hall p hp)
    · intro hfits p hp
      exact (cleanup_exact_iff h hexact hobj hp).mpr (hfits obj hobj p hp)

/-- **Attachment.** The runs in which every registered point is exact in all states are exactly
those in which every listener that is added has the type of the point of the name, and no listener
is destroyed while it is attached under a name other than its own. -/
theorem probe_exact_iff (objects : ι → Option (Listener α)) :
    (Reach (Steps (Traced.call decl)) (Fits decl) (Traced.init objects) s ↔
      Reach (Steps (Traced.call decl))
        (fun s c => ∀ s', s.call decl c = some s' → AllExact decl s') (Traced.init objects) s) ∧
    (Reach (Steps (Traced.call decl)) (Fits decl) (Traced.init objects) s → AllExact decl s) := by
  exact Reach.iff_of_keeps (AllExact decl) (Tracked decl) nofun (init_tracked objects)
    (fun _ _ _ hcall hexact h => call_exact_iff h hexact hcall)
    (fun _ _ _ hcall _ h _ => call_tracked h hcall)

/-- A listener of another type is connected under the name of the only point: the point holds a null
pointer, and `notify` calls through it. -/
theorem probe_null_entry :
    let decl : Unit → Point Bool := fun _ => ⟨"point", false⟩
    ¬ ∀ s : Traced Bool Unit Unit, Reach (Steps (Traced.call decl)) Free (.init fun _ => none) s →
      AllExact decl s := by
  intro decl h
  obtain ⟨s, hs, hnull⟩ := Reach.of_run (Traced.call decl) Free (.init fun _ => none)
    [.addPoint (), .connect () ⟨"point", id⟩]
    (fun s => s.probes.points = [()] ∧ s.probes.listeners () = [none] ∧
      s.probes.notify decl () () = none) (by decide +kernel)
  obtain ⟨hpoints, hlist, -⟩ := of_decide_eq_true hnull
  have hexact := h s hs () (by rw [hpoints]; exact List.mem_singleton_self ())
  exact hexact.listed.noNull (by rw [hlist]; exact List.mem_singleton_self none)

end NetSim.Probe
