import Mathlib.Logic.Function.Basic
import NetSim.Library.Reach

/-!
# Bindings of ports

`RequestPort` and `ResponsePort` of `src/common/port.h` and `src/common/port.cpp`. The two ends of a
binding are kept in two objects: `bind` and `unbind` of a request port write both of them, and those
of a response port do nothing. A port that is not bound points to the default port of the other
kind. The default request port is not visible outside its file; the default response port is,
through the public member `_responsePort`.

`bind` overwrites what the two ports pointed to before, and does not tell their former peers. So the
bindings stay one to one exactly as long as ports are unbound before they are bound anew.
-/

namespace NetSim.Common

open Library

variable {ρ σ : Type}

/-- A `Port &`: a request port, or a response port, where `none` is the default one. -/
inductive PortRef (ρ σ : Type)
  | request (r : ρ)
  | response (s : Option σ)
deriving DecidableEq, Repr

/-- The fields of a `RequestPort`. The `none` of `_responsePort` is the default port, and that of
`_peer` is null. -/
structure RequestPort (ρ σ : Type) where
  responsePort : Option σ
  peer : Option (PortRef ρ σ)
  connected : Bool

/-- The fields of a `ResponsePort`, with the same conventions. -/
structure ResponsePort (ρ σ : Type) where
  requestPort : Option ρ
  peer : Option (PortRef ρ σ)
  connected : Bool

/-- All ports, with the default response port. -/
structure Ports (ρ σ : Type) where
  request : ρ → RequestPort ρ σ
  response : Option σ → ResponsePort ρ σ

namespace Ports

/-- The constructors bind no port. -/
def init : Ports ρ σ where
  request := fun _ => ⟨none, none, false⟩
  response := fun _ => ⟨none, none, false⟩

section Operations

variable [DecidableEq ρ] [DecidableEq σ]

/-- `ResponsePort::responderBind` -/
def responderBind (s : Option σ) (r : ρ) (p : Ports ρ σ) : Ports ρ σ :=
  { p with response := Function.update p.response s ⟨some r, some (.request r), true⟩ }

/-- `ResponsePort::responderUnbind` -/
def responderUnbind (s : Option σ) (p : Ports ρ σ) : Ports ρ σ :=
  { p with response := Function.update p.response s ⟨none, none, false⟩ }

/-- `RequestPort::bind`. For a port that is no response port the cast gives null, and
`responderBind` is called on it. -/
def bind (r : ρ) (peer : PortRef ρ σ) (p : Ports ρ σ) : Option (Ports ρ σ) :=
  match peer with
  | .request _ => none
  | .response s =>
    some (responderBind s r
      { p with request := Function.update p.request r ⟨s, some (.response s), true⟩ })

/-- `RequestPort::unbind` -/
def unbind (r : ρ) (p : Ports ρ σ) : Ports ρ σ :=
  let p := p.responderUnbind (p.request r).responsePort
  { p with request := Function.update p.request r ⟨none, none, false⟩ }

end Operations

end Ports

/-- The calls that bind and unbind ports. -/
inductive PortCall (ρ σ : Type)
  | bind (r : ρ) (peer : PortRef ρ σ)
  | unbind (r : ρ)
  /-- `ResponsePort::bind` -/
  | responseBind (s : Option σ) (peer : PortRef ρ σ)
  /-- `ResponsePort::unbind` -/
  | responseUnbind (s : Option σ)
deriving DecidableEq, Repr

namespace Ports

/-- `r` and `s` point to each other. -/
def Paired (p : Ports ρ σ) (r : ρ) (s : σ) : Prop :=
  (p.request r).responsePort = some s ∧ (p.response (some s)).requestPort = some r

variable [DecidableEq ρ] [DecidableEq σ]

def call (p : Ports ρ σ) : PortCall ρ σ → Option (Ports ρ σ)
  | .bind r peer => p.bind r peer
  | .unbind r => some (p.unbind r)
  | .responseBind _ _ => some p
  | .responseUnbind _ => some p

/-- `unbind` of `r` disconnects `r` and its peer, and no other port. -/
structure UnbindsOnly (p : Ports ρ σ) (r : ρ) : Prop where
  self : ((p.unbind r).request r).connected = false
  peer : ∀ s, p.Paired r s → ((p.unbind r).response (some s)).connected = false
  request : ∀ r', r' ≠ r → ((p.unbind r).request r').connected = (p.request r').connected
  response : ∀ s, ¬ p.Paired r s →
    ((p.unbind r).response (some s)).connected = (p.response (some s)).connected

/-- The bindings are one to one. -/
structure OneToOne (p : Ports ρ σ) : Prop where
  agree : ∀ r s, (p.request r).responsePort = some s ↔ (p.response (some s)).requestPort = some r
  request : ∀ r, (p.request r).connected = true ↔ ∃ s, p.Paired r s
  response : ∀ s, (p.response (some s)).connected = true ↔ ∃ r, p.Paired r s
  unbind : ∀ r, p.UnbindsOnly r

/-- `bind` joins two ports that are both unbound, or bound to each other already. -/
def Joins (p : Ports ρ σ) : PortCall ρ σ → Prop
  | .bind r (.response (some s)) =>
    ((p.request r).responsePort = none ∧ (p.response (some s)).requestPort = none) ∨ p.Paired r s
  | .bind _ (.response none) => False
  | .bind _ (.request _) | .unbind _ | .responseBind _ _ | .responseUnbind _ => True

variable {p p' : Ports ρ σ} {r r' : ρ} {s s' : σ}

/-! ## The fields after a call -/

@[simp] theorem unbind_request_self : (p.unbind r).request r = ⟨none, none, false⟩ := by
  simp [unbind]

theorem unbind_request_of_ne (h : r' ≠ r) : (p.unbind r).request r' = p.request r' := by
  simp [unbind, responderUnbind, h]

theorem unbind_response_self (h : (p.request r).responsePort = some s) :
    (p.unbind r).response (some s) = ⟨none, none, false⟩ := by
  simp [unbind, responderUnbind, h]

theorem unbind_response_of_ne (h : (p.request r).responsePort ≠ some s) :
    (p.unbind r).response (some s) = p.response (some s) := by
  simp [unbind, responderUnbind, Ne.symm h]

/-- Where every pointer of a request port is answered, `unbind` is local. -/
theorem unbindsOnly (h : ∀ s, (p.request r).responsePort = some s → p.Paired r s) :
    p.UnbindsOnly r where
  self := by rw [unbind_request_self]
  peer s hs := by rw [unbind_response_self hs.1]
  request r' hr := by rw [unbind_request_of_ne hr]
  response s hs := by rw [unbind_response_of_ne fun hsome => hs (h s hsome)]

theorem OneToOne.paired_iff (h : OneToOne p) :
    p.Paired r s ↔ (p.request r).responsePort = some s :=
  ⟨fun hpair => hpair.1, fun hsome => ⟨hsome, (h.agree r s).mp hsome⟩⟩

/-- Ports that hold a relation in their pointers and in their flags, each end of it, are bound one
to one. -/
theorem OneToOne.of_relation (B : ρ → σ → Prop)
    (hforth : ∀ r s, (p.request r).responsePort = some s ↔ B r s)
    (hback : ∀ r s, (p.response (some s)).requestPort = some r ↔ B r s)
    (hrequest : ∀ r, (p.request r).connected = true ↔ ∃ s, B r s)
    (hresponse : ∀ s, (p.response (some s)).connected = true ↔ ∃ r, B r s) : OneToOne p := by
  have hpaired : ∀ r s, p.Paired r s ↔ B r s := fun r s => by
    rw [Paired, hforth, hback, and_self]
  refine ⟨fun r s => by rw [hforth, hback], ?_, ?_, fun r => unbindsOnly fun s hs => ?_⟩
  · simpa only [hpaired] using hrequest
  · simpa only [hpaired] using hresponse
  · exact (hpaired r s).mpr ((hforth r s).mp hs)

theorem init_oneToOne : OneToOne (init : Ports ρ σ) := by
  refine .of_relation (fun _ _ => False) ?_ ?_ ?_ ?_ <;> simp [init]

/-! ## One call -/

/-- A response port has one peer. -/
theorem OneToOne.unique (h : OneToOne p) (hr : (p.request r).responsePort = some s)
    (hr' : (p.request r').responsePort = some s) : r' = r := by
  have heq := ((h.agree r' s).mp hr').symm.trans ((h.agree r s).mp hr)
  exact Option.some.inj heq

theorem OneToOne.unbind_keeps (h : OneToOne p) (r : ρ) : OneToOne (p.unbind r) := by
  refine .of_relation (fun r' s => r' ≠ r ∧ p.Paired r' s) (fun r' s => ?_) (fun r' s => ?_)
    (fun r' => ?_) (fun s => ?_)
  · rw [h.paired_iff]
    by_cases hr : r' = r
    · subst hr
      simp
    · simp [unbind_request_of_ne hr, hr]
  · rw [h.paired_iff]
    by_cases hs : (p.request r).responsePort = some s
    · rw [unbind_response_self hs]
      exact iff_of_false (by simp) fun hother => hother.1 (h.unique hs hother.2)
    · rw [unbind_response_of_ne hs, ← h.agree r' s]
      constructor
      · intro hs'
        exact ⟨fun heq => hs (heq ▸ hs'), hs'⟩
      · exact And.right
  · by_cases hr : r' = r
    · subst hr
      simp
    · simp [unbind_request_of_ne hr, h.request, hr]
  · by_cases hs : (p.request r).responsePort = some s
    · rw [unbind_response_self hs]
      refine iff_of_false (by simp) ?_
      rintro ⟨r', hne, hpair⟩
      exact hne (h.unique hs hpair.1)
    · rw [unbind_response_of_ne hs, h.response]
      refine exists_congr fun r' => ⟨fun hpair => ⟨?_, hpair⟩, And.right⟩
      rintro rfl
      exact hs hpair.1

/-- The fields that `bind` writes, and those that it leaves. -/
theorem bind_fields {t : Option σ} (hbind : p.bind r (.response t) = some p') :
    (∀ r', p'.request r' = if r' = r then ⟨t, some (.response t), true⟩ else p.request r') ∧
      ∀ t', p'.response t' =
        if t' = t then ⟨some r, some (.request r), true⟩ else p.response t' := by
  cases hbind
  exact ⟨fun r' => Function.update_apply _ _ _ _, fun t' => Function.update_apply _ _ _ _⟩

/-- A request port that is bound to the default port counts as connected. -/
theorem not_oneToOne_of_bind_default (hbind : p.bind r (.response none) = some p') :
    ¬ OneToOne p' := by
  obtain ⟨hrequest, -⟩ := bind_fields hbind
  intro h
  obtain ⟨s, hs, -⟩ := (h.request r).mp (by rw [hrequest, if_pos rfl])
  rw [hrequest, if_pos rfl] at hs
  cases hs

/-- The condition of `bind` says that neither port points elsewhere. -/
theorem OneToOne.joins_iff (h : OneToOne p) :
    Joins p (.bind r (.response (some s))) ↔
      (∀ s', (p.request r).responsePort = some s' → s' = s) ∧
        ∀ r', (p.response (some s)).requestPort = some r' → r' = r := by
  constructor
  · rintro (⟨hr, hs⟩ | ⟨hr, hs⟩)
    · simp [hr, hs]
    · simp [hr, hs, eq_comm]
  · rintro ⟨hr, hs⟩
    cases hreq : (p.request r).responsePort with
    | some s' =>
      obtain rfl := hr s' hreq
      exact .inr ⟨hreq, (h.agree r s').mp hreq⟩
    | none =>
      refine .inl ⟨hreq, Option.eq_none_iff_forall_ne_some.mpr fun r' hr' => ?_⟩
      obtain rfl := hs r' hr'
      rw [(h.agree r' s).mpr hr'] at hreq
      cases hreq

/-- A `bind` that leaves a former peer behind breaks the bindings. -/
theorem OneToOne.joins_of_bind (h : OneToOne p) (hbind : p.bind r (.response (some s)) = some p')
    (h' : OneToOne p') : Joins p (.bind r (.response (some s))) := by
  obtain ⟨hrequest, hresponse⟩ := bind_fields hbind
  rw [h.joins_iff]
  refine ⟨fun s' hs' => ?_, fun r' hr' => ?_⟩
  · by_contra hne
    have hback : (p'.response (some s')).requestPort = some r := by
      rw [hresponse, if_neg (by simpa using hne)]
      exact (h.agree r s').mp hs'
    have hs := (h'.agree r s').mpr hback
    rw [hrequest, if_pos rfl] at hs
    exact hne (Option.some.inj hs).symm
  · by_contra hne
    have hforth : (p'.request r').responsePort = some s := by
      rw [hrequest, if_neg hne]
      exact (h.agree r' s).mpr hr'
    have hr := (h'.agree r' s).mp hforth
    rw [hresponse, if_pos rfl] at hr
    exact hne (Option.some.inj hr).symm

/-- The new pair stands beside the pairs of the other ports. -/
theorem OneToOne.bind_keeps (h : OneToOne p) (hbind : p.bind r (.response (some s)) = some p')
    (hjoins : Joins p (.bind r (.response (some s)))) : OneToOne p' := by
  obtain ⟨hrequest, hresponse⟩ := bind_fields hbind
  obtain ⟨hr, hs⟩ := h.joins_iff.mp hjoins
  have hother : ∀ {r' s'}, s' ≠ s →
      (p.Paired r' s' ↔ (r' = r ∧ s' = s) ∨ (r' ≠ r ∧ p.Paired r' s')) := by
    intro r' s' hne
    constructor
    · intro hpair
      refine .inr ⟨?_, hpair⟩
      rintro rfl
      exact hne (hr s' hpair.1)
    · rintro (⟨-, heq⟩ | ⟨-, hpair⟩)
      · exact absurd heq hne
      · exact hpair
  refine .of_relation (fun r' s' => (r' = r ∧ s' = s) ∨ (r' ≠ r ∧ p.Paired r' s'))
    (fun r' s' => ?_) (fun r' s' => ?_) (fun r' => ?_) (fun s' => ?_)
  · rw [hrequest, h.paired_iff]
    by_cases hr' : r' = r
    · simp [hr', eq_comm]
    · simp [hr']
  · rw [hresponse]
    by_cases hs' : s' = s
    · subst hs'
      rw [if_pos rfl]
      constructor
      · intro hr'
        exact .inl ⟨(Option.some.inj hr').symm, rfl⟩
      · rintro (⟨rfl, -⟩ | ⟨hne, hpair⟩)
        · rfl
        · exact absurd (hs r' hpair.2) hne
    · rw [if_neg (by simpa using hs'), ← h.agree, ← h.paired_iff]
      exact hother hs'
  · rw [hrequest]
    by_cases hr' : r' = r
    · simp [hr']
    · simp [hr', h.request]
  · rw [hresponse]
    by_cases hs' : s' = s
    · simp [hs']
    · rw [if_neg (by simpa using hs'), h.response]
      exact exists_congr fun r' => hother hs'

/-! ## Binding along a map -/

/-- The request ports `rs` are bound to their values under `f`, and no others are bound. -/
structure BoundAlong (f : ρ → σ) (rs : List ρ) (p : Ports ρ σ) : Prop where
  oneToOne : OneToOne p
  paired_iff : ∀ r s, p.Paired r s ↔ r ∈ rs ∧ f r = s

theorem init_boundAlong (f : ρ → σ) : BoundAlong f [] (init : Ports ρ σ) :=
  ⟨init_oneToOne, by simp [Paired, init]⟩

/-- Along an injective map, every `bind` joins two ports that point nowhere else. -/
theorem BoundAlong.bind {f : ρ → σ} (hf : Function.Injective f) {rs : List ρ}
    (h : BoundAlong f rs p) (r : ρ) :
    ∃ p', p.bind r (.response (some (f r))) = some p' ∧ BoundAlong f (rs ++ [r]) p' := by
  refine ⟨_, rfl, ?_⟩
  have hjoins : Joins p (.bind r (.response (some (f r)))) := by
    refine h.oneToOne.joins_iff.mpr ⟨fun s hs => ?_, fun r' hr' => ?_⟩
    · have hpair := h.oneToOne.paired_iff.mpr hs
      exact ((h.paired_iff r s).mp hpair).2.symm
    · have hpair := h.oneToOne.paired_iff.mpr ((h.oneToOne.agree r' (f r)).mpr hr')
      exact hf ((h.paired_iff r' (f r)).mp hpair).2
  have hone := h.oneToOne.bind_keeps rfl hjoins
  refine ⟨hone, fun r' s => ?_⟩
  obtain ⟨hrequest, -⟩ := bind_fields (p := p) (r := r) (t := some (f r)) rfl
  rw [hone.paired_iff, hrequest, List.mem_append, List.mem_singleton]
  by_cases hr : r' = r
  · subst hr
    simp
  · rw [if_neg hr, ← h.oneToOne.paired_iff, h.paired_iff]
    simp [hr]

/-! ## Runs -/

theorem call_iff {c : PortCall ρ σ} (hcall : p.call c = some p') (h : OneToOne p) :
    OneToOne p' ↔ Joins p c := by
  cases c with
  | bind r peer =>
    cases peer with
    | request r' => cases hcall
    | response t =>
      cases t with
      | none => exact iff_of_false (not_oneToOne_of_bind_default hcall) id
      | some s => exact ⟨h.joins_of_bind hcall, h.bind_keeps hcall⟩
  | unbind r =>
    cases hcall
    exact iff_of_true (h.unbind_keeps r) trivial
  | responseBind | responseUnbind =>
    cases hcall
    exact iff_of_true h trivial

/-- **Bindings.** A call keeps the bindings one to one exactly when it is no `bind`, or a `bind`
that joins two ports that are both unbound or bound to each other already. So the runs whose states
all have the bindings one to one are exactly those in which every `bind` does. -/
theorem one_to_one_iff :
    (∀ (q q' : Ports ρ σ) c, OneToOne q → q.call c = some q' → (OneToOne q' ↔ Joins q c)) ∧
    (Reach (Steps call) Joins (init : Ports ρ σ) p ↔
      Reach (Steps call) (fun p c => ∀ p', p.call c = some p' → OneToOne p') init p) ∧
    (Reach (Steps call) Joins (init : Ports ρ σ) p → OneToOne p) :=
  ⟨fun _ _ _ h hcall => call_iff hcall h,
    Reach.iff_of_keeps OneToOne (fun _ => True) init_oneToOne trivial
      (fun _ _ _ hcall h _ => call_iff hcall h) (fun _ _ _ _ _ _ _ => trivial)⟩

/-- Two request ports are bound to the same response port. Both point to it, and it points to the
second. -/
theorem one_to_one_fails :
    ¬ ∀ p : Ports Bool Unit, Reach (Steps call) Free init p → OneToOne p := by
  intro h
  obtain ⟨p, hp, hbound⟩ := Reach.of_run call Free (init : Ports Bool Unit)
    [.bind false (.response (some ())), .bind true (.response (some ()))]
    (fun p => (p.request false).responsePort = some () ∧
      (p.response (some ())).requestPort = some true) (by decide +kernel)
  obtain ⟨hforth, hback⟩ := of_decide_eq_true hbound
  rw [((h p hp).agree false ()).mp hforth] at hback
  cases hback

end Ports

end NetSim.Common
