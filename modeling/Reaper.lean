import Reaper.Library.Dict
import Reaper.Library.Names
import Reaper.Library.Patch
import Reaper.Library.Locks
import Reaper.Library.Coroutine
import Reaper.Library.WaitFor
import Reaper.Library.Signature
import Reaper.Library.Protocol
import Reaper.Library.Frames
import Reaper.Library.Fairness
import Reaper.Library.Doubles
import Reaper.Pool.Control
import Reaper.Pool.Conservation
import Reaper.Pool.Effects
import Reaper.Pool.Discards
import Reaper.Pool.Drive
import Reaper.Pool.Futures
import Reaper.Pool.Shutdown
import Reaper.Pool.Hanging
import Reaper.Pool.Staffing
import Reaper.Pool.Teardown
import Reaper.Pool.Heartbeat
import Reaper.Pool.Assertions
import Reaper.Pool.Stale
import Reaper.Pool.Draining
import Reaper.Pool.Framing
import Reaper.Pool.Writers
import Reaper.Pool.Identities
import Reaper.Pool.Circuit
import Reaper.Pool.Dispatch
import Reaper.Pool.Sends
import Reaper.Pool.Awaited
import Reaper.Pool.Exchange
import Reaper.Pool.Loop
import Reaper.Pool.Delivery
import Reaper.Pool.Replies
import Reaper.Pool.ChildConfig
import Reaper.Store.Schema
import Reaper.Store.Statements
import Reaper.Store.Transactions
import Reaper.Store.Locking
import Reaper.Store.Consistency
import Reaper.Store.Stages
import Reaper.Store.Steps
import Reaper.Store.Maintenance
import Reaper.Store.Immutable
import Reaper.Store.Tally
import Reaper.Store.Wakeups
import Reaper.Store.Interleavings
import Reaper.Store.Serial
import Reaper.Store.TaskRows
import Reaper.Store.Writes
import Reaper.Store.Deadlock
import Reaper.Store.Sweep
import Reaper.Store.Submissions
import Reaper.Store.Batches
import Reaper.Store.Notifications
import Reaper.Store.Columns
import Reaper.Worker.Listener
import Reaper.Tasks.Cleanup
import Reaper.Tasks.TaskClaim
import Reaper.Tasks.Shield
import Reaper.Tasks.Submissions
import Reaper.Tasks.Coalescing
import Reaper.Workflow.Replay
import Reaper.Workflow.First
import Reaper.Workflow.Reads
import Reaper.Workflow.Limits
import Reaper.Workflow.Sleep
import Reaper.Workflow.Progress
import Reaper.Workflow.Suspension
import Reaper.Workflow.Arguments
import Reaper.Worker.Outcome
import Reaper.Worker.Skeleton
import Reaper.Worker.Drivers
import Reaper.Worker.Spoken
import Reaper.Store.Readiness
import Reaper.Store.Retries
import Reaper.Pool.Spawn
import Reaper.Pool.Orphans
import Reaper.Store.Fingerprints
import Reaper.Store.Upkeep
import Reaper.Store.Retention
import Reaper.Pool.Executions
import Reaper.Pool.Silence
import Reaper.Worker.Exclusion
import Reaper.Worker.Links
