import NetSim.Memory.Callbacks
import NetSim.System.MemoryCalls

/-!
# The network with the memory model

`main` connects the buffers, the arbiter and the memory objects to the memory model of
`DRAMsim3-master`. The objects use the memory model as it asks for, so no cycle and no transaction
ends the program, the transactions of the memory model are those that the objects accepted, in the
same order, and the controller of a transaction is the one of the bank that it was sent to
(`network_memory_runs`).
-/

namespace NetSim.Memory

open Common Library Arbiter NetSim.System JedecDRAMSystem

/-- The memory model is running, and has accepted the transactions `sent`, the latest first. -/
def Running {c : Config} (sent : List Completion) (m : Except Exit (JedecDRAMSystem c)) : Prop :=
  ∃ s accepted reported, m = .ok s ∧ History s accepted reported ∧
    accepted.map Prod.snd = sent.reverse

/-- The calls of the objects keep the memory model running. -/
theorem running_callClosed {c : Config} (hself : c.enableSelfRefresh = false)
    (getChannel : Addr → Bank) : CallClosed (jedec c getChannel) Running where
  ask addr isWrite sent m h := by
    obtain ⟨s, accepted, reported, rfl, hrun, hsent⟩ := h
    exact ⟨s, accepted, reported, rfl, hrun, hsent⟩
  add addr isWrite sent m h haccept := by
    obtain ⟨s, accepted, reported, rfl, hrun, hsent⟩ := h
    have hadd : ∃ s', s.addTransaction addr isWrite = .ok s' := ⟨_, if_pos haccept⟩
    obtain ⟨s', hadd⟩ := hadd
    refine ⟨s', accepted ++ [(s.clk, ⟨addr, isWrite⟩)], reported, hadd, hrun.add hadd, ?_⟩
    rw [List.map_append, hsent, List.reverse_cons]
    rfl
  clock sent m h := by
    obtain ⟨s, accepted, reported, rfl, hrun, hsent⟩ := h
    have hreturns : ∃ s', s.clockTick = .ok s' :=
      clockTick_returns fun i => controller_never_exits hself (returnFrom_run _ _ (hrun.run i))
    obtain ⟨s', htick⟩ := hreturns
    exact ⟨s', accepted, _, htick, hrun.tick htick, hsent⟩

/-- **The memory model runs through.** In every reached state of the network of `main`, with the
base address of every buffer a multiple of 512 and the mapping of `main`, the memory model is
running and its accepted transactions are the accepted requests of the log in the same order, each
of them is for the controller of its bank, and the clock of the memory model can be serviced. -/
theorem network_memory_runs {m : Config} (hself : m.enableSelfRefresh = false)
    (hmapping : m.geometry.setAddressMapping m.fields = some hbm2Mapping)
    (getChannel : Addr → Bank) (c : Arbiter.Config) {addrInit : Fin c.numUpstreams → Addr}
    (haligned : ∀ up, 512 ∣ (addrInit up).toNat)
    {retryResp : Fin c.numUpstreams → Buffer.PortId → Bool}
    {s : Network c.numUpstreams (Except Exit (JedecDRAMSystem m))}
    (h : Reach (Steps (Network.step c (withMapping (jedec m getChannel)))) Free
      (.start c addrInit retryResp (.ok .init)) s) :
    Running (transactions s.world.log) s.world.rest.memory ∧
      (∀ bank (pkt : Packet), .sendReq bank pkt true ∈ s.world.log →
        (m.getChannel pkt.addr).val = bank.val) ∧
      ∀ q, s.world.rest.queue.takeHead = .ok (.wrapperTick, q) → 0 ≤ c.bufSize →
        ∃ w, wrapperTick (withMapping (jedec m getChannel)) (setQueue q s.world) = .ok w := by
  have hM : AtMostOnce (withMapping (jedec m getChannel)) unreported :=
    ⟨(jedec_atMostOnce getChannel).ask, (jedec_atMostOnce getChannel).add,
      (jedec_atMostOnce getChannel).clock⟩
  have hcalls : CallClosed (withMapping (jedec m getChannel)) Running :=
    ⟨(running_callClosed hself getChannel).ask, (running_callClosed hself getChannel).add,
      (running_callClosed hself getChannel).clock⟩
  have hinit : unreported (.ok .init : Except Exit (JedecDRAMSystem m)) = 0 := by
    simp [unreported, inFlight, init, Controller.inFlight, Controller.init]
  have hs : Consistent unreported s.world :=
    h.invariant (fun s => Consistent unreported s.world)
      (Network.start_consistent hinit haligned retryResp)
      fun _ _ _ _ hs _ hstep =>
        Network.does_consistent hM dispatch_eq hs (Network.step_does hstep).2
  refine ⟨?_, ?_, ?_⟩
  · exact reach_calls hcalls ⟨.init, [], [], rfl, .start, rfl⟩ (Network.reach_system h)
  · intro bank pkt hmem
    have honBank : OnBank bank pkt := hs.traffic.log _ hmem
    rw [Config.getChannel_eq hmapping, ← honBank.1]
    rfl
  · intro q _ hbuf
    exact (hs.setQueue q).wrapperTick_ok hM dispatch_eq (Network.roomForCounters hbuf h)

theorem hbm2_mapping :
    Config.hbm2.geometry.setAddressMapping Config.hbm2.fields = some hbm2Mapping := by
  decide +kernel

/-- The four buffers of `main`. After two rounds of arbitration sixteen reads are with the memory
model, and its clock comes next. -/
theorem network_memory_runs_two_rounds :
    ∃ (s : Network 4 (Except Exit (JedecDRAMSystem .hbm2))) (q : Event.EventQueue EventId),
      Reach (Steps (Network.step (Config.small 10 3) (withMapping (jedec .hbm2 dispatch)))) Free
        (.start (Config.small 10 3) (fun up => BitVec.ofNat 64 (16384 * up.val)) (fun _ _ => false)
          (.ok .init)) s ∧
      s.world.rest.queue.takeHead = .ok (.wrapperTick, q) ∧
      (transactions s.world.log).length = 16 ∧
      Running (transactions s.world.log) s.world.rest.memory ∧
      ∃ w, wrapperTick (withMapping (jedec .hbm2 dispatch)) (setQueue q s.world) = .ok w := by
  obtain ⟨s, hs, hp⟩ := Reach.of_run
    (Network.step (Config.small 10 3) (withMapping (jedec .hbm2 dispatch))) Free
    (.start (Config.small 10 3) (fun up => BitVec.ofNat 64 (16384 * up.val)) (fun _ _ => false)
      (.ok .init))
    [.init, .init, .init, .init, .serviceOne, .serviceOne, .serviceOne, .serviceOne]
    (fun s => (transactions s.world.log).length = 16 ∧
      s.world.rest.queue.takeHead.toOption.map Prod.fst = some .wrapperTick) (by decide +kernel)
  obtain ⟨hsent, hhead⟩ := of_decide_eq_true hp
  cases htake : s.world.rest.queue.takeHead with
  | error e => simp [htake, Except.toOption] at hhead
  | ok r =>
    obtain ⟨e, q⟩ := r
    have he : e = .wrapperTick := by simpa [htake, Except.toOption] using hhead
    subst he
    obtain ⟨hrunning, -, hclock⟩ :=
      network_memory_runs rfl hbm2_mapping dispatch (Config.small 10 3) (by decide) hs
    exact ⟨s, q, hs, htake, hsent, hrunning, hclock q htake (by decide)⟩

end NetSim.Memory
