import MemoryController.Library.Clocked
import MemoryController.Library.Fifo
import MemoryController.Library.PipelinedMemory
import MemoryController.Bench
import MemoryController.Refinement
import MemoryController.Pairing
import MemoryController.Resets
import MemoryController.DontCare
import MemoryController.Conformance
import MemoryController.Delivery
import MemoryController.Coverage
import MemoryController.Library.Lines
import MemoryController.Regression
import MemoryController.ReportSummary
import MemoryController.Tests
import MemoryController.Library.Roulette
import MemoryController.Library.Transitions
import MemoryController.Uvm.Arbitration
import MemoryController.Uvm.Processes
import MemoryController.Uvm.Requests
import MemoryController.Uvm.Stop
import MemoryController.Uvm.Blocked
import MemoryController.Uvm.Wakeups
import MemoryController.Uvm.DriverLoop
import MemoryController.Uvm.Timing
import MemoryController.Uvm.Locks
import MemoryController.Library.Aggregation
import MemoryController.Uvm.Objection
import MemoryController.Uvm.Drains
import MemoryController.Uvm.ObjectionRuns
import MemoryController.Uvm.AllDropped
