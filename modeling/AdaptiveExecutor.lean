import AdaptiveExecutor.Backfill.Lockstep
import AdaptiveExecutor.Backfill.Release
import AdaptiveExecutor.Backfill.Scan
import AdaptiveExecutor.Backfill.Line
import AdaptiveExecutor.Scheduling.Planner
import AdaptiveExecutor.Scheduling.Room
import AdaptiveExecutor.Scheduling.Plan
import AdaptiveExecutor.Scheduling.Gates
import AdaptiveExecutor.Scheduling.Head
import AdaptiveExecutor.Scheduling.Reservation
import AdaptiveExecutor.Scheduling.Safety
import AdaptiveExecutor.Scheduling.Canary
import AdaptiveExecutor.Scheduling.Maximal
import AdaptiveExecutor.Scheduling.Machine
import AdaptiveExecutor.Scheduling.Cycles
import AdaptiveExecutor.Scheduling.Fifo
import AdaptiveExecutor.Scheduling.Course
import AdaptiveExecutor.Scheduling.Progress
import AdaptiveExecutor.Accounting
import AdaptiveExecutor.Profiles
import AdaptiveExecutor.Profiles.Percentile
import AdaptiveExecutor.Profiles.Log
import AdaptiveExecutor.Profiles.Floors
import AdaptiveExecutor.Profiles.Document
import AdaptiveExecutor.Profiles.Recovery
import AdaptiveExecutor.Profiles.Damage
import AdaptiveExecutor.Ledger.Moves
import AdaptiveExecutor.Ledger.Lock
import AdaptiveExecutor.Ledger.Channel
import AdaptiveExecutor.Ledger.Mailbox
import AdaptiveExecutor.Ledger.Paths
import AdaptiveExecutor.Ledger.Writeback
import AdaptiveExecutor.Profiles.Saving
import AdaptiveExecutor.Executor.State
import AdaptiveExecutor.Executor.Dispatch
import AdaptiveExecutor.Executor.System
import AdaptiveExecutor.Executor.Transport
import AdaptiveExecutor.Executor.Cycle
import AdaptiveExecutor.Executor.Runs
import AdaptiveExecutor.Executor.Failures
import AdaptiveExecutor.Executor.Pool
import AdaptiveExecutor.Executor.Places
import AdaptiveExecutor.Executor.Flight
import AdaptiveExecutor.Executor.Exclusive
import AdaptiveExecutor.Executor.Feasibility
import AdaptiveExecutor.Executor.ColdStart
import AdaptiveExecutor.Executor.Commitments
import AdaptiveExecutor.Executor.Credit
import AdaptiveExecutor.Executor.Spawn
import AdaptiveExecutor.Executor.Roster
import AdaptiveExecutor.Executor.Supply
import AdaptiveExecutor.Executor.Cancelled
import AdaptiveExecutor.Executor.Shutdown
import AdaptiveExecutor.Executor.Workers
import AdaptiveExecutor.Executor.Calm
import AdaptiveExecutor.Executor.Callbacks
import AdaptiveExecutor.Executor.Phases
import AdaptiveExecutor.Executor.Handshake
import AdaptiveExecutor.Executor.Interleaving
import AdaptiveExecutor.Executor.Crew
import AdaptiveExecutor.Executor.Drain
import AdaptiveExecutor.Executor.Tasks
import AdaptiveExecutor.Executor.Poison
import AdaptiveExecutor.Executor.Overdue
import AdaptiveExecutor.Executor.Attempts
import AdaptiveExecutor.Executor.Crashes
import AdaptiveExecutor.Executor.Estimates
import AdaptiveExecutor.Executor.Collect
import AdaptiveExecutor.Executor.Delivery
import AdaptiveExecutor.Executor.Stall
import AdaptiveExecutor.Executor.Driven
import AdaptiveExecutor.Executor.Slots
import AdaptiveExecutor.Executor.Leaving
import AdaptiveExecutor.Measure.Monitor
import AdaptiveExecutor.Measure.Observe
import AdaptiveExecutor.Executor.Watched
import AdaptiveExecutor.Executor.Authentic
import AdaptiveExecutor.Executor.Mail
import AdaptiveExecutor.Executor.Visits
import AdaptiveExecutor.Ledger.Replace
import AdaptiveExecutor.Profiles.Restart
import AdaptiveExecutor.Profiles.Debounce
import AdaptiveExecutor.Resolve
