import RoundRobinArbiter.Synchronous.Machine
import RoundRobinArbiter.Synchronous.Events
import RoundRobinArbiter.Synchronous.Polling
import RoundRobinArbiter.Synchronous.Waiting
import RoundRobinArbiter.Synchronous.Sequences
import RoundRobinArbiter.Rotation.Order
import RoundRobinArbiter.Rotation.Following
import RoundRobinArbiter.Coverage.Bins
import RoundRobinArbiter.Arbiter.Rtl
import RoundRobinArbiter.Arbiter.Refinement
import RoundRobinArbiter.Arbiter.Observation
import RoundRobinArbiter.Arbiter.Access
import RoundRobinArbiter.Arbiter.Safety
import RoundRobinArbiter.Arbiter.Bus
import RoundRobinArbiter.Arbiter.Blocks
import RoundRobinArbiter.Arbiter.Order
import RoundRobinArbiter.Arbiter.Progress
import RoundRobinArbiter.Arbiter.Acknowledge
import RoundRobinArbiter.Arbiter.Handshake
import RoundRobinArbiter.Arbiter.Stray
import RoundRobinArbiter.Arbiter.Timeout
import RoundRobinArbiter.Arbiter.Latency
import RoundRobinArbiter.Testbench.Bench
import RoundRobinArbiter.Testbench.Pairing
import RoundRobinArbiter.Testbench.Assertions
import RoundRobinArbiter.Testbench.Responder
import RoundRobinArbiter.Testbench.Saturation
import RoundRobinArbiter.Testbench.Monitor
import RoundRobinArbiter.Testbench.Scoreboard
import RoundRobinArbiter.Testbench.OrderCheck
import RoundRobinArbiter.Testbench.Counting
import RoundRobinArbiter.Testbench.Completeness
import RoundRobinArbiter.Testbench.Patience
import RoundRobinArbiter.Testbench.Views
import RoundRobinArbiter.Testbench.Outcomes
import RoundRobinArbiter.Testbench.Generator
import RoundRobinArbiter.Testbench.Rounds
import RoundRobinArbiter.Testbench.Delivery
import RoundRobinArbiter.Testbench.Draining
import RoundRobinArbiter.Testbench.Fidelity
import RoundRobinArbiter.Testbench.Turns
import RoundRobinArbiter.Testbench.Env
import RoundRobinArbiter.Testbench.Pace
import RoundRobinArbiter.Testbench.Arrival
import RoundRobinArbiter.Testbench.Schedule
import RoundRobinArbiter.Testbench.Properties
import RoundRobinArbiter.Testbench.Coverage
