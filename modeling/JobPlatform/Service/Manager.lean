import JobPlatform.System.World

namespace JobPlatform

structure Manager where
  validateSchema      : String → Int → String → Except Error Unit
  defaultDedupeWindow : Duration

namespace Manager

-- Without a schema registry every payload is valid.
def sample : Manager where
  validateSchema _ _ _ := .ok ()
  defaultDedupeWindow  := 15 * Duration.minute

def dedupeWindow (m : Manager) (req : JobRequest) : Duration :=
  if 0 < req.dedupeWindowSeconds then
    wrap64 (req.dedupeWindowSeconds * Duration.second)
  else if m.defaultDedupeWindow ≤ 0 then
    15 * Duration.minute
  else
    m.defaultDedupeWindow

-- The repository call of `enqueueJob`.
def createJob (m : Manager) (req : JobRequest) (job : Job) : Program (Except Error EnqueueResult) := do
  let dependencies := sanitizeDependencies req.dependencies job.id
  if job.idempotencyKey ≠ "" then
    repo (.createJobWithIdempotency job dependencies (m.dedupeWindow req))
  else
    match ← repo (.createJobBundle job dependencies) with
    | .error e => return .error e
    | .ok ()   => return .ok { job, duplicateSuppressed := false, idempotency := none }

def accepts (m : Manager) (req : JobRequest) : Except Error Unit := do
  req.validate
  m.validateSchema req.type (if req.schemaVersion ≤ 0 then 1 else req.schemaVersion) req.payload

-- The identifier is the one that is drawn for the new job.
def enqueueJob (m : Manager) (req : JobRequest) (id : JobID) : Program (Except Error EnqueueResult) := do
  match m.accepts req with
  | .error e => return .error e
  | .ok ()   =>
    let now ← timeNow
    match ← m.createJob req (buildJob now req id) with
    | .error e   => return .error e
    | .ok result =>
      if result.duplicateSuppressed then
        return .ok result
      else
        match ← Broker.enqueue result.job with
        | .error e => return .error e
        | .ok ()   => return .ok result

-- The requests come with the identifiers that are drawn for their jobs.
def enqueueBatch (m : Manager) :
    List (JobRequest × JobID) → List EnqueueResult → Program (Except Error (List EnqueueResult))
  | [],                results => return .ok results
  | (req, id) :: rest, results => do
    match ← m.enqueueJob req id with
    | .error e   => return .error e
    | .ok result => m.enqueueBatch rest (results ++ [result])

-- What `retryJob` makes of the job which it has read.
def retriedJob (job : Job) (now : Time) : Job :=
  { job with
    state           := .queued
    attempts        := 0
    lastError       := ""
    result          := ""
    runAt           := now
    updatedAt       := now
    startedAt       := none
    finishedAt      := none
    throttleUntil   := none
    leaseExpiresAt  := none
    blockedReason   := ""
    cancelRequested := false
  }

def retryJob (jobID : JobID) : Program (Except Error Job) := do
  match ← repo (.getJob jobID) with
  | .error e => return .error e
  | .ok job  =>
    let now ← timeNow
    let job := retriedJob job now
    match ← broker (.retry job now) with
    | .error e => return .error e
    | .ok ()   =>
      match ← repo (.markJobQueued job) with
      | .error e => return .error e
      | .ok ()   =>
        let _ ← repo (.deleteDeadLetters [jobID])
        return .ok job

-- What `replayDeadLetters` makes of a job which it has read. A request to cancel the job remains.
def replayedJob (req : DeadLetterReplayRequest) (job : Job) (now : Time) : Job :=
  { job with
    queue           := if req.queue ≠ "" then req.queue else job.queue
    payload         := if req.payload ≠ "" then req.payload else job.payload
    type            := if req.jobType ≠ "" then req.jobType else job.type
    priority        := req.priority.getD job.priority
    state           := .queued
    attempts        := 0
    lastError       := ""
    result          := ""
    updatedAt       := now
    runAt           := now
    startedAt       := none
    finishedAt      := none
    lastHeartbeatAt := none
    leaseExpiresAt  := none
    throttleUntil   := none
    blockedReason   := ""
  }

def replayAll (req : DeadLetterReplayRequest) (now : Time) :
    List JobID → List Job → Program (Except Error (List Job))
  | [],            replayed => return .ok replayed
  | jobID :: rest, replayed => do
    match ← repo (.getJob jobID) with
    | .error e => return .error e
    | .ok job  =>
      let job := replayedJob req job now
      match ← broker (.retry job now) with
      | .error e => return .error e
      | .ok ()   =>
        match ← repo (.markJobQueued job) with
        | .error e => return .error e
        | .ok ()   =>
          match ← repo (.deleteDeadLetters [job.id]) with
          | .error e => return .error e
          | .ok ()   => replayAll req now rest (replayed ++ [job])

def replayDeadLetters (req : DeadLetterReplayRequest) : Program (Except Error (List Job)) := do
  let now ← timeNow
  replayAll req now req.jobIDs []

-- Nothing is done about the lists of the broker.
def deleteDeadLetters (jobIDs : List JobID) : Program (Except Error Unit) := do
  if jobIDs = [] then
    return .ok ()
  else
    match ← repo (.deleteDeadLetters jobIDs) with
    | .error e => return .error e
    | .ok ()   => return .ok ()

-- The states which `cancelJob` turns into the canceled one. They are not those of the broker.
def isCancelable (s : JobState) : Bool :=
  s = .queued ∨ s = .retrying ∨ s = .scheduled ∨ s = .failed

def canceledJob (job : Job) (now : Time) : Job :=
  { job with
    cancelRequested := true
    updatedAt       := now
    lastError       := "canceled by operator"
    state           := if isCancelable job.state then .canceled else job.state
    finishedAt      := if isCancelable job.state then some now else job.finishedAt
  }

def cancelJob (jobID : JobID) : Program (Except Error Job) := do
  match ← repo (.getJob jobID) with
  | .error e => return .error e
  | .ok job  =>
    match ← Broker.cancel jobID with
    | .error e => return .error e
    | .ok ()   =>
      let now ← timeNow
      let job := canceledJob job now
      match ← repo (.markJobCanceled job) with
      | .error e => return .error e
      | .ok ()   => return .ok job

end Manager
end JobPlatform
