import JobPlatform.Domain

namespace JobPlatform

-- The hash under the key of a job. Its times are milliseconds, and a field that is missing has the
-- value that `jobFromHash` reads for it, except for `max_attempts` as the scripts have their own
-- default for that one.
structure JobHash where
  id               : JobID
  type             : String
  queue            : QueueName
  tenantID         : String
  payload          : String
  priority         : Int
  attempts         : Int
  maxAttempts      : Option Int
  state            : JobState
  schemaVersion    : Int
  idempotencyKey   : String
  workflowID       : String
  parentJobID      : String
  dependencyPolicy : DependencyFailurePolicy
  blockedReason    : String
  createdAt        : Int
  updatedAt        : Int
  runAt            : Int
  startedAt        : Option Int
  finishedAt       : Option Int
  lastHeartbeatAt  : Option Int
  leaseExpiresAt   : Option Int
  throttleUntil    : Option Int
  lastError        : String
  result           : String
  workerID         : WorkerID
  leaseToken       : Token
  timeoutSeconds   : Int
  cancelRequested  : Bool
  executionMs      : Int
  deriving DecidableEq

-- What is read from a hash without any fields. The state is never read in that case.
def JobHash.empty : JobHash where
  id               := ""
  type             := ""
  queue            := ""
  tenantID         := ""
  payload          := ""
  priority         := 0
  attempts         := 0
  maxAttempts      := none
  state            := .queued
  schemaVersion    := 0
  idempotencyKey   := ""
  workflowID       := ""
  parentJobID      := ""
  dependencyPolicy := .block
  blockedReason    := ""
  createdAt        := Time.zero.unixMilli
  updatedAt        := Time.zero.unixMilli
  runAt            := Time.zero.unixMilli
  startedAt        := none
  finishedAt       := none
  lastHeartbeatAt  := none
  leaseExpiresAt   := none
  throttleUntil    := none
  lastError        := ""
  result           := ""
  workerID         := ""
  leaseToken       := ""
  timeoutSeconds   := 0
  cancelRequested  := false
  executionMs      := 0

def jobHash (job : Job) : JobHash where
  id               := job.id
  type             := job.type
  queue            := job.queue
  tenantID         := job.tenantID
  payload          := job.payload
  priority         := job.priority
  attempts         := job.attempts
  maxAttempts      := job.maxAttempts
  state            := job.state
  schemaVersion    := job.schemaVersion
  idempotencyKey   := job.idempotencyKey
  workflowID       := job.workflowID
  parentJobID      := job.parentJobID
  dependencyPolicy := job.dependencyPolicy
  blockedReason    := job.blockedReason
  createdAt        := job.createdAt.unixMilli
  updatedAt        := job.updatedAt.unixMilli
  runAt            := job.runAt.unixMilli
  startedAt        := job.startedAt.map Time.unixMilli
  finishedAt       := job.finishedAt.map Time.unixMilli
  lastHeartbeatAt  := job.lastHeartbeatAt.map Time.unixMilli
  leaseExpiresAt   := job.leaseExpiresAt.map Time.unixMilli
  throttleUntil    := job.throttleUntil.map Time.unixMilli
  lastError        := job.lastError
  result           := job.result
  workerID         := job.workerID
  leaseToken       := job.leaseToken
  timeoutSeconds   := job.timeoutSeconds
  cancelRequested  := job.cancelRequested
  executionMs      := job.executionMs

def jobFromHash (h : JobHash) : Job where
  id               := h.id
  type             := h.type
  queue            := h.queue
  tenantID         := h.tenantID
  payload          := h.payload
  priority         := h.priority
  attempts         := h.attempts
  maxAttempts      := h.maxAttempts.getD 0
  state            := h.state
  schemaVersion    := h.schemaVersion
  idempotencyKey   := h.idempotencyKey
  workflowID       := h.workflowID
  parentJobID      := h.parentJobID
  dependencyPolicy := h.dependencyPolicy
  blockedReason    := h.blockedReason
  createdAt        := .ofUnixMilli h.createdAt
  updatedAt        := .ofUnixMilli h.updatedAt
  runAt            := .ofUnixMilli h.runAt
  startedAt        := h.startedAt.map .ofUnixMilli
  finishedAt       := h.finishedAt.map .ofUnixMilli
  lastHeartbeatAt  := h.lastHeartbeatAt.map .ofUnixMilli
  leaseExpiresAt   := h.leaseExpiresAt.map .ofUnixMilli
  throttleUntil    := h.throttleUntil.map .ofUnixMilli
  lastError        := h.lastError
  result           := h.result
  workerID         := h.workerID
  leaseToken       := h.leaseToken
  timeoutSeconds   := h.timeoutSeconds
  cancelRequested  := h.cancelRequested
  executionMs      := h.executionMs

end JobPlatform
