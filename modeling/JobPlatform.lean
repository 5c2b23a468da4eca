import JobPlatform.Library.Run
import JobPlatform.Library.Filing
import JobPlatform.Library.Prog
import JobPlatform.Library.Trace
import JobPlatform.Library.Pool
import JobPlatform.Library.SortedSet
import JobPlatform.Library.Double
import JobPlatform.Library.Text
import JobPlatform.Library.Window
import JobPlatform.Library.Apart
import JobPlatform.Library.Decimal
import JobPlatform.Library.Rank
import JobPlatform.Library.RecursiveQuery
import JobPlatform.Library.Newest
import JobPlatform.Library.Number
import JobPlatform.Domain
import JobPlatform.Queue.Hash
import JobPlatform.Queue.Redis
import JobPlatform.Queue.Broker
import JobPlatform.Queue.Effects
import JobPlatform.Queue.Asleep
import JobPlatform.Queue.Seats
import JobPlatform.Queue.Placement
import JobPlatform.Queue.Session
import JobPlatform.Queue.Sweeps
import JobPlatform.Queue.Fencing
import JobPlatform.Queue.Fields
import JobPlatform.Queue.Budget
import JobPlatform.Queue.Calendar
import JobPlatform.Queue.Task
import JobPlatform.Queue.Line
import JobPlatform.Queue.Polling
import JobPlatform.Queue.Backoff
import JobPlatform.Queue.Encoding
import JobPlatform.Store.Postgres
import JobPlatform.Store.Effects
import JobPlatform.Store.Submissions
import JobPlatform.Store.Attempts
import JobPlatform.Store.States
import JobPlatform.Limits.Redis
import JobPlatform.System.World
import JobPlatform.System.Summary
import JobPlatform.Limits.Limiter
import JobPlatform.Limits.Admission
import JobPlatform.Limits.Rollback
import JobPlatform.Limits.Slots
import JobPlatform.Limits.Status
import JobPlatform.Limits.Usage
import JobPlatform.Limits.RetryTimes
import JobPlatform.Leadership.Redis
import JobPlatform.Leadership.Election
import JobPlatform.Service.Manager
import JobPlatform.Service.Atomicity
import JobPlatform.Service.Cancellation
import JobPlatform.Service.Requeues
import JobPlatform.Service.Batch
import JobPlatform.Service.Idempotency
import JobPlatform.Service.Graph
import JobPlatform.Service.Replay
import JobPlatform.Service.Schemas
import JobPlatform.Worker.Dependencies
import JobPlatform.Worker.Resolution
import JobPlatform.Worker.Rule
import JobPlatform.Worker.Runtime
import JobPlatform.Worker.Attempts
import JobPlatform.Worker.Wakeups
import JobPlatform.Worker.Releases
import JobPlatform.Worker.Loop
import JobPlatform.Worker.Budget
import JobPlatform.Scheduler.Service
import JobPlatform.Scheduler.Recovery
import JobPlatform.Scheduler.Batch
import JobPlatform.Scheduler.Retries
import JobPlatform.Scheduler.Audit
import JobPlatform.Scheduler.Failures
import JobPlatform.Scheduler.Orphans
import JobPlatform.Scheduler.Cron
import JobPlatform.Service.Validation
import JobPlatform.Service.Durations
import JobPlatform.Scheduler.Dispatch
import JobPlatform.Scheduler.Slot
import JobPlatform.Scheduler.NextRun
import JobPlatform.System.Platform
import JobPlatform.System.Quiet
import JobPlatform.System.Dependents
import JobPlatform.System.Agreement
import JobPlatform.Worker.Agreement
import JobPlatform.Service.Agreement
import JobPlatform.Scheduler.Agreement
import JobPlatform.System.Consistency
import JobPlatform.System.DeadLetters
import JobPlatform.Worker.DeadLetters
import JobPlatform.Scheduler.DeadLetters
import JobPlatform.Service.DeadLetters
import JobPlatform.System.Mirror
import JobPlatform.System.Attempts
import JobPlatform.System.Wakeups
import JobPlatform.System.Releases
import JobPlatform.System.Footprint
import JobPlatform.System.Budget
import JobPlatform.Worker.Precedence
import JobPlatform.System.Precedence
import JobPlatform.Worker.Provenance
import JobPlatform.System.Provenance
import JobPlatform.System.Fleet
import JobPlatform.System.Outcomes
import JobPlatform.System.Board
import JobPlatform.Store.Migrations
import JobPlatform.Live.Transport
import JobPlatform.Live.Events
import JobPlatform.Live.Retries
import JobPlatform.Live.Hub
import JobPlatform.Dashboard.Url
import JobPlatform.Dashboard.Feed
import JobPlatform.Dashboard.Models
import JobPlatform.Dashboard.Draft
import JobPlatform.Dashboard.Overview
import JobPlatform.Dashboard.LiveData
import JobPlatform.Dashboard.Refresh
import JobPlatform.Dashboard.Servers
import JobPlatform.Dashboard.Serialize
import JobPlatform.Dashboard.Signature
import JobPlatform.Dashboard.Reuse
import JobPlatform.Dashboard.Hydration
import JobPlatform.Dashboard.Inspection
import JobPlatform.Scheduler.Loop
import JobPlatform.System.Schedulers
