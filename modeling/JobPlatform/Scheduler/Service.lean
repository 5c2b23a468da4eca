import JobPlatform.System.World

namespace JobPlatform

structure Scheduler where
  activationBatchSize : Int
  recoveryBatchSize   : Int

namespace Scheduler

variable (s : Scheduler)

def markActivated : List JobID → Program Unit
  | []            => return ()
  | jobID :: rest => do
    match ← broker (.loadJob jobID) with
    | .error _ => markActivated rest
    | .ok job  =>
      let _ ← repo (.markJobQueued job)
      markActivated rest

def activateDue : Program (Except Error Unit) := do
  let now ← timeNow
  match ← broker (.activateDue s.activationBatchSize now) with
  | .error e   => return .error e
  | .ok jobIDs =>
    markActivated jobIDs
    return .ok ()

def valueOrNow : Option Time → Program Time
  | some value => return value
  | none       => timeNow

def expiredAttempt (job : Job) (started finished : Time) : JobAttempt where
  jobID        := job.id
  attempt      := job.attempts
  workerID     := job.workerID
  leaseToken   := ""
  status       := "lease_expired"
  errorType    := "lease_expired"
  errorMessage := "lease expired"
  leaseExpired := true
  startedAt    := started
  finishedAt   := some finished

def expiredDeadLetter (job : Job) (finished : Time) : DeadLetter where
  jobID          := job.id
  queue          := job.queue
  workerID       := job.workerID
  errorType      := "lease_expired"
  errorMessage   := "lease expired"
  failedAt       := finished
  lastAttempt    := job.attempts
  replayCount    := 0
  lastReplayedAt := none

-- The time of the retry is formatted without a check, so a missing one ends the scheduler.
def markRetried (job : Job) (retryAt : Option Time) : Program (Except Error Unit) := do
  if let some retryAt := retryAt then
    let _ ← repo (.markJobRetrying job retryAt)
  let started  ← valueOrNow job.startedAt
  let finished ← timeNow
  let _ ← repo (.upsertJobAttempt <| expiredAttempt job started finished)
  return if retryAt.isSome then .ok () else .error .nilDereference

def markFailed (job : Job) : Program Unit := do
  let finished ← timeNow
  let job := { job with finishedAt := some finished }
  let _ ← repo (.markJobFailed job)
  let _ ← repo (.upsertDeadLetter <| expiredDeadLetter job finished)
  updateIdempotencyOutcome job "failed"

def markCanceled (job : Job) : Program Unit := do
  let finished ← timeNow
  let _ ← repo (.markJobCanceled { job with finishedAt := some finished, cancelRequested := true })
  return ()

def markRecovered : List RecoveredLease → Program (Except Error Unit)
  | []           => return .ok ()
  | item :: rest => do
    match ← broker (.loadJob item.jobID) with
    | .error _ => markRecovered rest
    | .ok job  =>
      match item.state with
      | .retrying =>
        match ← markRetried job item.retryAt with
        | .error e => return .error e
        | .ok ()   => markRecovered rest
      | .failed =>
        markFailed job
        markRecovered rest
      | .canceled =>
        markCanceled job
        markRecovered rest
      | _ => markRecovered rest

def recoverExpired : Program (Except Error Unit) := do
  let now ← timeNow
  match ← broker (.recoverExpired s.recoveryBatchSize now) with
  | .error e      => return .error e
  | .ok recovered => markRecovered recovered

end Scheduler
end JobPlatform
