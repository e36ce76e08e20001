import NetSim.System.Schedule

/-!
# The arbiter inside the memory system

Every run of the memory system is a run of the arbiter with the memory objects and the upstreams
as its peers: what happens outside the arbiter is a step of the rest of its world. So everything
that holds in all runs of the arbiter holds in the memory system.
-/

namespace NetSim.System

open Common Library Event Arbiter Dram

variable {υ μ : Type} {c : Config} {M : MemorySystem μ} {U : Upstreams c.numUpstreams υ}
  {w w' : World (Outside υ μ)} {bank : Bank}

/-- The runs of the arbiter from `w`. -/
abbrev ArbiterRun (c : Config) (M : MemorySystem μ) (U : Upstreams c.numUpstreams υ)
    (w w' : World (Outside υ μ)) : Prop :=
  Reach (Steps (Arbiter.step c (peers c M U))) Free w w'

theorem ArbiterRun.outside (h : ArbiterRun c M U w w') (o : Outside υ μ) :
    ArbiterRun c M U w { w' with rest := o } :=
  .next (.rest o) h trivial rfl

/-! ## Handlers that stay outside the arbiter -/

theorem accessAndRespond_core (pkt : Packet) (w : World (Outside υ μ)) :
    (Dram.accessAndRespond (worldHost M bank) pkt w).toCore = w.toCore := by
  unfold Dram.accessAndRespond
  dsimp only
  split
  · rfl
  · rfl

theorem complete_core (w : World (Outside υ μ)) (t : Completion) (w' : World (Outside υ μ))
    (h : complete M w t = .ok w') : w'.toCore = w.toCore := by
  unfold complete at h
  dsimp only at h
  split at h
  · obtain ⟨pkt, rest, -, -, rfl⟩ := writeComplete_ok h
    rfl
  · obtain ⟨pkt, rest, -, -, rfl⟩ := readComplete_ok h
    exact accessAndRespond_core pkt _

theorem wrapperTick_core (h : wrapperTick M w = .ok w') : w'.toCore = w.toCore := by
  obtain ⟨v, hdone, rfl⟩ := wrapperTick_ok h
  have hloop := foldlM_relates (fun s t : World (Outside υ μ) => t.toCore = s.toCore)
    (fun _ => rfl) (fun _ _ _ h h' => h'.trans h) complete_core hdone
  have hv : v.toCore = w.toCore := hloop
  split
  · exact hv
  · exact hv

/-! ## Steps and runs -/

/-- Processing an event whose flag was set before it was taken from the queue. -/
theorem process_run {v : World (Outside υ μ)} {e : EventId} (hv : ArbiterRun c M U v w)
    (harb : e = .arb .arb → w.arb.arbEvent = true)
    (hresp : e = .arb .sendResponse → w.arb.sendResponseEvent = true)
    (h : process c M U w e = .ok w') : ArbiterRun c M U v w' := by
  cases e with
  | arb e =>
    cases e with
    | arb =>
      cases h
      exact .next .arbitrate hv trivial (if_pos (harb rfl))
    | sendResponse =>
      cases h
      exact .next .sendResponse hv trivial (if_pos (hresp rfl))
  | dram bank e =>
    cases e with
    | tick =>
      cases h
      unfold tick
      split
      · exact .next (.reqRetry bank) (hv.outside _) trivial rfl
      · exact hv
    | sendResponse =>
      obtain ⟨-, pkt, rest, success, u, -, hsend, rfl⟩ := sendResponse_ok h
      have hu : ArbiterRun c M U v u := by
        refine .next (.response bank pkt) hv trivial ?_
        simp only [Steps, Arbiter.step, (respond_ok hsend).2, Except.toOption]
      exact hu.outside _
  | wrapperTick =>
    have hcore := wrapperTick_core h
    obtain ⟨core, rest⟩ := w'
    subst hcore
    exact hv.outside rest

theorem step_run {v : World (Outside υ μ)} {action : Action c.numUpstreams υ} (hw : Linked w)
    (hv : ArbiterRun c M U v w) (hstep : step c M U w action = some w') :
    ArbiterRun c M U v w' := by
  have hrunning := step_running hstep
  cases action with
  | serviceOne =>
    obtain ⟨e, q, htake, hprocess⟩ := step_serviceOne hstep
    obtain ⟨-, hscheduled, -⟩ := hw.sound.takeHead htake
    refine process_run (hv.outside { w.rest with queue := q }) ?_ ?_ hprocess
    · rintro rfl
      exact hw.arb.symm.trans hscheduled
    · rintro rfl
      exact hw.sendResponse.symm.trans hscheduled
  | request bank up pkt =>
    refine .next (.request bank up pkt) hv trivial ?_
    simpa [Steps, Arbiter.step, step, hrunning] using hstep
  | respRetry bank up =>
    refine .next (.respRetry bank up) hv trivial ?_
    simpa [Steps, Arbiter.step, step, hrunning] using hstep
  | upstream u =>
    have hw' : w' = { w with rest := { w.rest with upstream := u } } := by
      simpa [step, hrunning] using hstep.symm
    subst hw'
    exact hv.outside _
  | advance t =>
    obtain rfl := step_advance hstep
    exact hv.outside _

/-- The arbiter in a run of the memory system takes the steps of a run of its own. -/
theorem reach_arbiterRun {u : υ} {m : μ}
    (h : Reach (Steps (step c M U)) Free (start u m) w) : ArbiterRun c M U (start u m) w := by
  suffices hw : Linked w ∧ ArbiterRun c M U (start u m) w from hw.2
  refine h.invariant (fun v => Linked v ∧ ArbiterRun c M U (start u m) v) ?_ ?_
  · exact ⟨(start_linked u m).1, .start⟩
  · exact fun _ _ _ _ hv _ hstep => ⟨(step_failed hv.1 hstep).1, step_run hv.1 hv.2 hstep⟩

end NetSim.System
