import Mathlib.Logic.Function.Basic
import NetSim.Library.Along

/-!
# The probe manager

`ProbeManager`, `ProbePointArg` and `ProbeListenerCleanup` of `src/probe/probe.h` and
`src/probe/probe.cpp`. A point has a name and an argument type, and keeps pointers to the listeners
that it notifies. Listeners are attached by the name of a point. A point casts a listener to its own
argument type, and does not look at whether the cast gave null.

The listeners are objects with addresses: `connect` allocates one, and the deleter of the pointer
that it returns removes the listener and destroys it. An address may be used again.
-/

namespace NetSim.Probe

variable {α π ι : Type}

/-- A listener: its name, and the types `Arg` for which it is a `ProbeListenerArgBase<Arg>`. -/
structure Listener (α : Type) where
  name : String
  isA : α → Bool

/-- The constants of a `ProbePointArg<Arg>`: its name and `Arg`. -/
structure Point (α : Type) where
  name : String
  arg : α

/-- The points of the manager, the lists of all points, where `none` is a null pointer, and the
listeners that exist. -/
structure Probes (α π ι : Type) where
  points : List π
  listeners : π → List (Option ι)
  objects : ι → Option (Listener α)

/-- The state before the first point is added, with the listeners that exist then. -/
def Probes.init (objects : ι → Option (Listener α)) : Probes α π ι where
  points := []
  listeners := fun _ => []
  objects := objects

/-- `dynamic_cast<ProbeListenerArgBase<Arg> *>` of the listener at `l`. -/
def Listener.cast (obj : Listener α) (l : ι) (arg : α) : Option ι :=
  if obj.isA arg then some l else none

namespace Probes

variable (decl : π → Point α)

/-- `ProbeManager::getFirstProbePoint` -/
def getFirstProbePoint (name : String) (s : Probes α π ι) : Option π :=
  s.points.find? fun p => (decl p).name = name

/-- `ProbeManager::addPoint` -/
def addPoint (p : π) (s : Probes α π ι) : Probes α π ι :=
  if (s.getFirstProbePoint decl (decl p).name).isSome then s
  else { s with points := s.points ++ [p] }

/-- A listener of the type `arg` exists at `l`. -/
def Live (s : Probes α π ι) (arg : α) (l : ι) : Prop :=
  ∃ obj, s.objects l = some obj ∧ obj.isA arg = true

instance (s : Probes α π ι) (arg : α) (l : ι) : Decidable (s.Live arg l) :=
  match h : s.objects l with
  | some obj => decidable_of_iff (obj.isA arg = true) (by simp [Live, h])
  | none => .isFalse (by simp [Live, h])

/-- The loop of `ProbePointArg::notify` over a list: the calls that it makes, or nothing when it
calls through a pointer to no listener of the type. -/
def notifyEach {V : Type} (s : Probes α π ι) (arg : α) (val : V) :
    List (Option ι) → Option (List (ι × V))
  | [] => some []
  | none :: _ => none
  | some l :: list =>
    if s.Live arg l then (notifyEach s arg val list).map ((l, val) :: ·) else none

/-- `ProbePointArg::notify` -/
def notify {V : Type} (p : π) (val : V) (s : Probes α π ι) : Option (List (ι × V)) :=
  s.notifyEach (decl p).arg val (s.listeners p)

/-- A point is added unless there is one of its name. -/
theorem addPoint_cases (p : π) (s : Probes α π ι) :
    ((∃ q ∈ s.points, (decl q).name = (decl p).name) ∧ s.addPoint decl p = s) ∨
      ((∀ q ∈ s.points, (decl q).name ≠ (decl p).name) ∧
        s.addPoint decl p = { s with points := s.points ++ [p] }) := by
  unfold addPoint getFirstProbePoint
  split
  · rename_i hfound
    refine .inl ⟨?_, rfl⟩
    simpa using hfound
  · rename_i hnone
    refine .inr ⟨?_, rfl⟩
    simpa using hnone

end Probes

/-! ## Listeners -/

variable [DecidableEq ι]

/-- `ProbePointArg::addListener` on the list of the point, after the cast. -/
def attach (entry : Option ι) (list : List (Option ι)) : List (Option ι) :=
  if entry ∈ list then list else list ++ [entry]

/-- `ProbePointArg::removeListener` on the list of the point, after the cast. -/
def detach (entry : Option ι) (list : List (Option ι)) : List (Option ι) :=
  list.filter fun x => x ≠ entry

theorem mem_attach {x entry : Option ι} {list : List (Option ι)} :
    x ∈ attach entry list ↔ x ∈ list ∨ x = entry := by
  unfold attach
  split
  · rename_i hmem
    exact ⟨.inl, fun h => h.elim id fun heq => heq ▸ hmem⟩
  · rw [List.mem_append, List.mem_singleton]

theorem mem_detach {x entry : Option ι} {list : List (Option ι)} :
    x ∈ detach entry list ↔ x ∈ list ∧ x ≠ entry := by
  simp [detach]

theorem detach_of_notMem {entry : Option ι} {list : List (Option ι)} (h : entry ∉ list) :
    detach entry list = list := by
  refine List.filter_eq_self.mpr fun x hx => ?_
  simpa using fun heq : x = entry => h (heq ▸ hx)

namespace Probes

variable [DecidableEq π] (decl : π → Point α)

omit [DecidableEq ι] in
/-- The body of the loop of `addListener` and `removeListener` over the points. -/
def visit (name : String) (op : π → List (Option ι) → List (Option ι))
    (r : Bool × Probes α π ι) (p : π) : Bool × Probes α π ι :=
  if (decl p).name = name then
    (true, { r.2 with listeners := Function.update r.2.listeners p (op p (r.2.listeners p)) })
  else r

omit [DecidableEq ι] in
/-- The loop of `addListener` and `removeListener`. It tells whether there was a point of the
name. -/
def forPoints (name : String) (op : π → List (Option ι) → List (Option ι)) (s : Probes α π ι) :
    Bool × Probes α π ι :=
  s.points.foldl (visit decl name op) (false, s)

/-- `ProbeManager::addListener` for the listener `obj` at `l` -/
def addListener (name : String) (l : ι) (obj : Listener α) : Probes α π ι → Bool × Probes α π ι :=
  forPoints decl name fun p => attach (obj.cast l (decl p).arg)

/-- `ProbeManager::removeListener` for the listener `obj` at `l` -/
def removeListener (name : String) (l : ι) (obj : Listener α) :
    Probes α π ι → Bool × Probes α π ι :=
  forPoints decl name fun p => detach (obj.cast l (decl p).arg)

/-- `ProbeManager::connect`; the new listener `obj` is allocated at `l`. -/
def connect (l : ι) (obj : Listener α) (s : Probes α π ι) : Probes α π ι :=
  (addListener decl obj.name l obj { s with objects := Function.update s.objects l (some obj) }).2

/-- `ProbeListenerCleanup::operator()` for the listener `obj` at `l` -/
def cleanup (l : ι) (obj : Listener α) (s : Probes α π ι) : Probes α π ι :=
  let s := (removeListener decl obj.name l obj s).2
  { s with objects := Function.update s.objects l none }

/-! ## What the loops do -/

omit [DecidableEq ι] in
theorem visit_eq {decl : π → Point α} {name : String}
    {op : π → List (Option ι) → List (Option ι)} (r : Bool × Probes α π ι) (q : π) :
    (visit decl name op r q).2 = ⟨r.2.points, fun p =>
      if p = q ∧ (decl p).name = name then op p (r.2.listeners p) else r.2.listeners p,
      r.2.objects⟩ := by
  unfold visit
  split
  · rename_i hname
    have hlist : Function.update r.2.listeners q (op q (r.2.listeners q)) = fun p =>
        if p = q ∧ (decl p).name = name then op p (r.2.listeners p) else r.2.listeners p := by
      funext p
      by_cases hp : p = q
      · subst hp
        simp [hname]
      · simp [hp]
    dsimp only
    rw [hlist]
  · rename_i hname
    have hlist : (fun p => if p = q ∧ (decl p).name = name then op p (r.2.listeners p)
        else r.2.listeners p) = r.2.listeners := by
      funext p
      rw [if_neg]
      rintro ⟨rfl, h⟩
      exact hname h
    rw [hlist]

omit [DecidableEq ι] in
theorem foldl_visit {decl : π → Point α} {name : String}
    {op : π → List (Option ι) → List (Option ι)} {ps : List π} (hnodup : ps.Nodup)
    (r : Bool × Probes α π ι) :
    (ps.foldl (visit decl name op) r).2 = ⟨r.2.points, fun p =>
      if p ∈ ps ∧ (decl p).name = name then op p (r.2.listeners p) else r.2.listeners p,
      r.2.objects⟩ := by
  induction ps generalizing r with
  | nil => simp
  | cons q ps ih =>
    obtain ⟨hq, hps⟩ := List.nodup_cons.mp hnodup
    rw [List.foldl_cons, ih hps, visit_eq]
    congr 1
    funext p
    by_cases hp : p = q
    · subst hp
      simp [hq]
    · simp [hp]

omit [DecidableEq ι] in
/-- The loop changes the lists of the points of the name, each once, and nothing else. -/
theorem forPoints_eq {decl : π → Point α} {name : String}
    {op : π → List (Option ι) → List (Option ι)} {s : Probes α π ι} (hnodup : s.points.Nodup) :
    (forPoints decl name op s).2 = ⟨s.points, fun p =>
      if p ∈ s.points ∧ (decl p).name = name then op p (s.listeners p) else s.listeners p,
      s.objects⟩ :=
  foldl_visit hnodup (false, s)

variable {decl : π → Point α} {s : Probes α π ι}

theorem addListener_points (hnodup : s.points.Nodup) {name : String} {l : ι} {obj : Listener α} :
    (s.addListener decl name l obj).2.points = s.points := by
  rw [addListener, forPoints_eq hnodup]

theorem removeListener_points (hnodup : s.points.Nodup) {name : String} {l : ι}
    {obj : Listener α} : (s.removeListener decl name l obj).2.points = s.points := by
  rw [removeListener, forPoints_eq hnodup]

end Probes

end NetSim.Probe
