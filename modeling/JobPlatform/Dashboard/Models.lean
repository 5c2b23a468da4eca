import JobPlatform.Domain
import JobPlatform.Library.Json
import JobPlatform.Library.Number

namespace JobPlatform.Dashboard

-- The instants are in milliseconds.
structure Job where
  id               : String
  type             : String
  queue            : String
  tenantId         : String
  payload          : Json
  priority         : Number
  attempts         : Number
  maxAttempts      : Number
  state            : JobState
  schemaVersion    : Number
  idempotencyKey   : String
  workflowId       : String
  dependencyPolicy : String
  blockedReason    : String
  createdAt        : Int
  updatedAt        : Int
  runAt            : Int
  timeoutSeconds   : Number
  cancelRequested  : Bool
  executionMs      : Number

structure Schedule where
  id        : String
  nextRunAt : Int

structure WorkerLeaseHealth where
  workerId       : String
  heartbeatAgeMs : Number

structure DeadLetter where
  jobId    : String
  failedAt : Int

structure RateLimitStatus where
  policy    : String
  throttled : Bool

-- The length of a queue, unless its name is one that every object inherits. Then some text stands for it.
inductive QueueLength
  | number (n : Number)
  | text
  deriving DecidableEq

-- There is a counter for each state.
structure Overview where
  totalJobs      : Number
  jobs           : JobState → Number
  queueLengths   : String → Option QueueLength
  averageExecMs  : Number
  lastUpdatedAt  : String
  activeWorkers  : Number
  delayedBacklog : Number

structure DashboardSnapshot where
  overview      : Overview
  workers       : List WorkerLeaseHealth
  deadLetters   : List DeadLetter
  blockedJobs   : List Job
  throttledJobs : List Job
  rateLimits    : List RateLimitStatus

structure ConsoleData where
  snapshot       : DashboardSnapshot
  jobs           : List Job
  schedules      : List Schedule
  lastHydratedAt : String

end JobPlatform.Dashboard
