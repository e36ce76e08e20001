import NetSim.Arbiter.Bookkeeping
import NetSim.Arbiter.Fairness
import NetSim.Arbiter.Indices
import NetSim.Arbiter.Offers
import NetSim.Arbiter.PortNames
import NetSim.Arbiter.RequestProtocol
import NetSim.Arbiter.RequestRetry
import NetSim.Arbiter.ResponseProtocol
import NetSim.Arbiter.WakeUp
import NetSim.Buffer.Draining
import NetSim.Buffer.Occupancy
import NetSim.Buffer.Retries
import NetSim.Common.Port
import NetSim.Dram.Accounting
import NetSim.Dram.Handshake
import NetSim.Dram.RepeatSlots
import NetSim.Event.Deschedule
import NetSim.Event.Reschedule
import NetSim.Event.ServiceEvents
import NetSim.Memory.Coherence
import NetSim.Memory.DataBus
import NetSim.Memory.Drain
import NetSim.Memory.Simulation
import NetSim.Memory.Starvation
import NetSim.Probe.Attachment
import NetSim.System.Channels
import NetSim.System.Termination
import NetSim.System.Wiring
