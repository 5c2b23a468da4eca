import JobPlatform.Limits.Limiter
import JobPlatform.Worker.Dependencies

namespace JobPlatform

-- An error of a handler, with the name of its type.
structure HandlerError where
  type             : String
  message          : String
  deadlineExceeded : Bool

-- What a handler does: the rounds of the heartbeat loop that start before it returns, and its result.
structure Handling where
  rounds : Nat
  result : Except HandlerError String

namespace Runtime

open Worker

variable (r : Runtime)

-- The attempt as it is recorded by the worker.
def attempt (job : Job) (leaseToken : Token) (status : String) (err : Option HandlerError)
    (errorMessage : String) (started : Time) (finishedAt : Option Time) : JobAttempt where
  jobID        := job.id
  attempt      := job.attempts
  workerID     := r.workerID
  leaseToken   := leaseToken
  status       := status
  errorType    := err.elim "" (·.type)
  errorMessage := errorMessage
  leaseExpired := false
  startedAt    := started
  finishedAt   := finishedAt

def throttle (job : Job) (leaseToken : Token) (retryAt : Time) (reason : String) : Program Unit := do
  let now ← timeNow
  let job := { job with
    state         := .throttled
    lastError     := reason
    updatedAt     := now
    throttleUntil := some retryAt
    runAt         := retryAt
  }
  match ← Broker.requeueThrottled job leaseToken retryAt reason with
  | .error _   => return ()
  | .ok false  => return ()
  | .ok true   =>
    let _ ← repo (.markJobThrottled job)
    return ()

def throttleReason (reasons : List ThrottleReason) : String :=
  if reasons = [] then "job throttled" else "; ".intercalate (reasons.map (·.message))

-- The job as it is passed to the broker and the repository when its handler has failed.
def failedJob (job : Job) (err : HandlerError) (started finished : Time) : Job :=
  { job with
    executionMs := Duration.milliseconds (finished - started)
    updatedAt   := finished
    lastError   := if err.deadlineExceeded then "job timed out" else err.message
    state       := if job.attempts < job.maxAttempts then .retrying else .failed
    finishedAt  := if job.attempts < job.maxAttempts then job.finishedAt else some finished
  }

def failureRetryAt (job : Job) (finished : Time) : Option Time :=
  if job.attempts < job.maxAttempts
  then some (finished + computeBackoff job.attempts r.baseRetryDelay r.maxRetryDelay)
  else none

def deadLetter (job : Job) (err : HandlerError) (finished : Time) : DeadLetter where
  jobID          := job.id
  queue          := job.queue
  workerID       := r.workerID
  errorType      := err.type
  errorMessage   := job.lastError
  failedAt       := finished
  lastAttempt    := job.attempts
  replayCount    := 0
  lastReplayedAt := none

def handleFailure (job : Job) (leaseToken : Token) (err : HandlerError) (started finished : Time) :
    Program Unit := do
  let retryAt := r.failureRetryAt job finished
  let job := failedJob job err started finished
  match ← broker (.fail job leaseToken job.lastError retryAt finished) with
  | .error _  => return ()
  | .ok false => return ()
  | .ok true  =>
    match retryAt with
    | some retryAt =>
      let _ ← repo (.markJobRetrying job retryAt)
      let _ ← repo (.upsertJobAttempt <| r.attempt job leaseToken "retrying" err job.lastError started finished)
      return ()
    | none =>
      let _ ← repo (.markJobFailed job)
      updateIdempotencyOutcome job "failed"
      let _ ← repo (.upsertJobAttempt <| r.attempt job leaseToken "failed" err job.lastError started finished)
      let _ ← repo (.upsertDeadLetter <| r.deadLetter job err finished)
      resolveDependents job finished

-- The rounds of `heartbeatLoop` until the handler has returned.
def heartbeatLoop (job : Job) (leaseToken : Token) (policies : List RateLimitPolicy) : Nat → Program Unit
  | 0          => return ()
  | rounds + 1 => do
    match ← Broker.heartbeat job.id leaseToken r.leaseTTL with
    | .error _  => return ()
    | .ok false => return ()
    | .ok true  =>
      let heartbeatAt ← timeNow
      let _ ← repo (.updateJobHeartbeat job.id r.workerID heartbeatAt (heartbeatAt + r.leaseTTL))
      if r.limited && policies ≠ [] then
        Limiter.renew job policies r.leaseTTL
      heartbeatLoop job leaseToken policies rounds

def leasedJob (leased : LeasedJob) (started : Time) : Job :=
  { leased.job with
    workerID        := r.workerID
    state           := .active
    leaseToken      := leased.leaseToken
    updatedAt       := started
    startedAt       := some started
    lastHeartbeatAt := some started
    leaseExpiresAt  := some (started + r.leaseTTL)
  }

def completedJob (job : Job) (result : String) (started finished : Time) : Job :=
  { job with
    executionMs := Duration.milliseconds (finished - started)
    updatedAt   := finished
    state       := .completed
    result      := result
    finishedAt  := some finished
  }

-- What `process` does with the result of the handler.
def finish (job : Job) (leaseToken : Token) (outcome : Except HandlerError String) (started : Time) :
    Program Unit := do
  let finished ← timeNow
  match outcome with
  | .error err => r.handleFailure job leaseToken err started finished
  | .ok result =>
    let job := completedJob job result started finished
    match ← broker (.complete job leaseToken result finished) with
    | .error _  => return ()
    | .ok false => return ()
    | .ok true  =>
      let _ ← repo (.markJobCompleted job)
      updateIdempotencyOutcome job "completed"
      let _ ← repo (.upsertJobAttempt <| r.attempt job leaseToken "completed" none "" started finished)
      resolveDependents job finished

-- What `process` does with a job that has been admitted. A job without a handler fails at once, and
-- the heartbeat loop runs beside a handler.
def execute (job : Job) (leaseToken : Token) (policies : List RateLimitPolicy)
    (handling : Option Handling) (started : Time) : Program Unit := do
  let _ ← repo (.markJobActive job)
  let _ ← repo (.upsertJobAttempt <| r.attempt job leaseToken "started" none "" started none)
  match handling with
  | none =>
    let err := {
      type             := "*errors.errorString"
      message          := "no handler registered for " ++ job.type
      deadlineExceeded := false
    }
    r.handleFailure job leaseToken err started started
  | some handling =>
    let _ ← Prog.perform (Call.heartbeats r job leaseToken policies handling.rounds)
    r.finish job leaseToken handling.result started

def process (leased : LeasedJob) (policies : List RateLimitPolicy) (handling : Option Handling) :
    Program Unit := do
  let started ← timeNow
  let job := r.leasedJob leased started
  if r.limited && policies ≠ [] then
    match ← Limiter.evaluateAndAcquire job policies r.leaseTTL with
    | .error _     =>
      throttle job leased.leaseToken (started + r.heartbeatInterval) "rate limiter unavailable"
    | .ok decision =>
      if decision.allowed then
        r.execute job leased.leaseToken policies handling started
        Limiter.release job policies
      else
        throttle job leased.leaseToken decision.retryAt (throttleReason decision.reasons)
  else
    r.execute job leased.leaseToken policies handling started

-- One round of the worker's loop. A job without a handler is not handled.
def work (policies : List RateLimitPolicy) (handler : Job → Option Handling) : Program Unit := do
  match ← Broker.dequeue r.workerID r.queues r.leaseTTL with
  | .error _          => return ()
  | .ok none          => return ()
  | .ok (some leased) => r.process leased policies (handler leased.job)

end Runtime
end JobPlatform
