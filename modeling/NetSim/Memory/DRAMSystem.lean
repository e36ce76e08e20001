import NetSim.Memory.Controller
import NetSim.System.Model

/-!
# The memory system

`JedecDRAMSystem` of `DRAMsim3-master/src/dram_system.cc`, behind `MemorySystem` of
`DRAMsim3-master/src/memory_system.cc`: a controller for each channel. `ClockTick` first reports the
transactions that are done and then ticks the controllers. A memory system that has ended the
program does nothing more.
-/

namespace NetSim.Memory

open Common NetSim.System

/-- `JedecDRAMSystem` -/
structure JedecDRAMSystem (c : Config) where
  clk : Nat
  ctrls : Fin c.channels → Controller c

namespace JedecDRAMSystem

variable {c : Config}

def init : JedecDRAMSystem c := ⟨0, fun _ => .init⟩

variable (s : JedecDRAMSystem c)

/-- `JedecDRAMSystem::WillAcceptTransaction` -/
def willAcceptTransaction (hexAddr : Addr) (isWrite : Bool) : Bool :=
  (s.ctrls (c.getChannel hexAddr)).willAcceptTransaction isWrite

/-- `JedecDRAMSystem::AddTransaction` -/
def addTransaction (hexAddr : Addr) (isWrite : Bool) : Except Exit (JedecDRAMSystem c) :=
  let channel := c.getChannel hexAddr
  if (s.ctrls channel).willAcceptTransaction isWrite then
    .ok { s with
      ctrls := Function.update s.ctrls channel ((s.ctrls channel).addTransaction hexAddr isWrite) }
  else .error .assertion

/-- `fuel` turns of the loop that asks a controller for the transactions that are done. -/
def returnFrom (clk : Nat) : Nat → Controller c → List Transaction × Controller c
  | 0, k => ([], k)
  | fuel + 1, k =>
    match k.returnDoneTrans clk with
    | none => ([], k)
    | some (t, k) =>
      let (ts, k) := returnFrom clk fuel k
      (t :: ts, k)

/-- The loop; every turn takes a transaction from the return queue. -/
def returnDone (clk : Nat) (k : Controller c) : List Transaction × Controller c :=
  returnFrom clk k.returnQueue.length k

/-- The clock of one controller. -/
def tickCtrl (s : JedecDRAMSystem c) (i : Fin c.channels) : Except Exit (JedecDRAMSystem c) :=
  match (s.ctrls i).clockTick with
  | .error e => .error e
  | .ok k => .ok { s with ctrls := Function.update s.ctrls i k }

/-- The callbacks of a cycle. -/
def reported : List Transaction :=
  (List.finRange c.channels).flatMap fun i => (returnDone s.clk (s.ctrls i)).1

/-- `JedecDRAMSystem::ClockTick` -/
def clockTick : Except Exit (JedecDRAMSystem c) :=
  let s' : JedecDRAMSystem c := { s with ctrls := fun i => (returnDone s.clk (s.ctrls i)).2 }
  match (List.finRange c.channels).foldlM tickCtrl s' with
  | .error e => .error e
  | .ok s => .ok { s with clk := s.clk + 1 }

end JedecDRAMSystem

/-- What the wrapper sees of a transaction. -/
def Transaction.completion (t : Transaction) : Completion := ⟨t.addr, t.isWrite⟩

/-- The memory model as the objects of the simulation use it; `getChannel` is computed by the
wrapper. -/
def jedec (c : Config) (getChannel : Addr → Arbiter.Bank) :
    MemorySystem (Except Exit (JedecDRAMSystem c)) where
  willAcceptTransaction addr isWrite m :=
    match m with
    | .ok s => (s.willAcceptTransaction addr isWrite, m)
    | .error _ => (false, m)
  addTransaction addr isWrite m := m.bind fun s => s.addTransaction addr isWrite
  clockTick m :=
    match m with
    | .ok s => (s.reported.map Transaction.completion, s.clockTick)
    | .error _ => ([], m)
  getChannel := getChannel

end NetSim.Memory
