import ShortSched.Lib.PartialRun
import ShortSched.Lib.Monitor
import ShortSched.Lib.Ring
import ShortSched.Lib.Ledger
import ShortSched.Lib.Buckets
import ShortSched.Lib.Fifo
import ShortSched.Lib.Cells
import ShortSched.Lib.Locks
import ShortSched.Lib.Tokens
import ShortSched.Types
import ShortSched.Queue
import ShortSched.Schedule
import ShortSched.Setscheduler
import ShortSched.Fork
import ShortSched.Shape
import ShortSched.Core
import ShortSched.Effects
import ShortSched.Refine
import ShortSched.System
import ShortSched.Trials
import ShortSched.Parameters
import ShortSched.Slices
import ShortSched.Placement
import ShortSched.Upkeep
import ShortSched.Separation
import ShortSched.Population
import ShortSched.Absorbing
import ShortSched.Balance
import ShortSched.Links
import ShortSched.Consistency
import ShortSched.PolicyLinks
import ShortSched.Progress
import ShortSched.ClassOrder
import ShortSched.Preemption
import ShortSched.Survival
import ShortSched.SwitchLog
import ShortSched.Recording
import ShortSched.SwitchTrace
import ShortSched.SwitchReasons
import ShortSched.LockDiscipline
import ShortSched.Donations
import ShortSched.SliceBounds
import ShortSched.StaticPriority
import ShortSched.Queries
import ShortSched.Overtaking
import ShortSched.RoundRobin
import ShortSched.Uninterruptible
import ShortSched.Budget
import ShortSched.PolicyChange
import ShortSched.UserMemory
import ShortSched.Yield
import ShortSched.ChildFirst
import ShortSched.RoundTrip
import ShortSched.Entitlement
import ShortSched.Reschedule
import ShortSched.ForkFailure
import ShortSched.FailedFork
import ShortSched.SwitchRing
import ShortSched.BalanceLoop
import ShortSched.Migration
import ShortSched.IdleBalance
import ShortSched.SleepAverage
import ShortSched.SleepCredit
import ShortSched.ProcessTable
import ShortSched.PidReuse
import ShortSched.Lookup
import ShortSched.Mourning
import ShortSched.JobControl
import ShortSched.RunqueueLocks
import ShortSched.LockOwners
import ShortSched.TaskPlacement
import ShortSched.SmpRuns
import ShortSched.MigrationRequests
import ShortSched.Affinity
