import JobPlatform.Domain
import Mathlib.Data.List.Sort
import Mathlib.Logic.Function.Basic

namespace JobPlatform

-- The edges of the dependency graph. Its primary key excludes that an edge is stored twice.
structure DependencyTable where
  edges : List JobDependency
  nodup : edges.Nodup

namespace DependencyTable

def empty : DependencyTable where
  edges := []
  nodup := List.nodup_nil

-- Inserting an edge that is stored already does nothing.
def insert (t : DependencyTable) (e : JobDependency) : DependencyTable where
  edges := t.edges.insert e
  nodup := t.nodup.insert

@[simp]
theorem mem_insert {t : DependencyTable} {e e' : JobDependency} :
    e' ∈ (t.insert e).edges ↔ e' = e ∨ e' ∈ t.edges :=
  List.mem_insert_iff

end DependencyTable

-- The tables which the platform reads again. A row of `jobs` holds all the fields of a job.
structure Postgres where
  jobs         : JobID → Option Job
  dependencies : DependencyTable
  attempts     : JobID → Int → Option JobAttempt
  deadLetters  : JobID → Option DeadLetter
  idempotency  : String → Option IdempotencyRecord

namespace Postgres

def empty : Postgres where
  jobs _         := none
  dependencies   := .empty
  attempts _ _   := none
  deadLetters _  := none
  idempotency _  := none

def isInt4 (n : Int) : Bool :=
  -2 ^ 31 ≤ n ∧ n < 2 ^ 31

-- The row of a new job. Columns that are not inserted have their default.
def newRow (job : Job) : Job :=
  { job with
    runAt           := job.runAt.stored
    createdAt       := job.createdAt.stored
    updatedAt       := job.updatedAt.stored
    throttleUntil   := job.throttleUntil.map Time.stored
    leaseExpiresAt  := job.leaseExpiresAt.map Time.stored
    startedAt       := none
    finishedAt      := none
    lastHeartbeatAt := none
    lastError       := ""
    result          := ""
    workerID        := ""
    leaseToken      := ""
    cancelRequested := false
    executionMs     := 0
  }

def insertJobTx (job : Job) (p : Postgres) : Except Error Postgres :=
  if ¬[job.priority, job.attempts, job.maxAttempts, job.schemaVersion, job.timeoutSeconds].all isInt4 then
    .error .numericOutOfRange
  else if job.payload = "" then
    .error .notNullViolation
  else if (p.jobs job.id).isSome then
    .error .uniqueViolation
  else
    .ok { p with jobs := Function.update p.jobs job.id (some <| newRow job) }

def insertDependenciesTx (jobID : JobID) : List JobID → Postgres → Except Error Postgres
  | [],                      p => .ok p
  | dependencyID :: rest, p =>
    if dependencyID = "" then
      insertDependenciesTx jobID rest p
    else if (p.jobs jobID).isNone ∨ (p.jobs dependencyID).isNone then
      .error .foreignKeyViolation
    else
      insertDependenciesTx jobID rest { p with dependencies := p.dependencies.insert ⟨jobID, dependencyID⟩ }

-- A transaction has no effect if one of its statements fails.
def transaction {α : Type} (tx : Postgres → Except Error (Postgres × α)) (p : Postgres) :
    Postgres × Except Error α :=
  match tx p with
  | .ok (p', a) => (p', .ok a)
  | .error e    => (p, .error e)

def createJobBundle (job : Job) (dependencies : List JobID) : Postgres → Postgres × Except Error Unit :=
  transaction fun p => do
    let p ← insertJobTx job p
    let p ← insertDependenciesTx job.id dependencies p
    return (p, ())

def newIdempotencyRecord (job : Job) (dedupeWindow : Duration) : IdempotencyRecord where
  scope          := idempotencyScope job.tenantID job.type job.idempotencyKey
  tenantID       := job.tenantID
  jobType        := job.type
  idempotencyKey := job.idempotencyKey
  jobID          := job.id
  status         := "accepted"
  outcome        := ""
  firstSeenAt    := job.createdAt
  updatedAt      := job.createdAt
  expiresAt      := job.createdAt + (if dedupeWindow ≤ 0 then 15 * Duration.minute else dedupeWindow)

def storedRecord (record : IdempotencyRecord) : IdempotencyRecord :=
  { record with
    firstSeenAt := record.firstSeenAt.stored
    updatedAt   := record.updatedAt.stored
    expiresAt   := record.expiresAt.stored
  }

-- Transactions are executed one after the other, so the record cannot appear in between.
def createJobWithIdempotency (job : Job) (dependencies : List JobID) (dedupeWindow : Duration) :
    Postgres → Postgres × Except Error EnqueueResult :=
  transaction fun p =>
    let record := newIdempotencyRecord job dedupeWindow
    let create := do
      let p ← insertJobTx job p
      let p ← insertDependenciesTx job.id dependencies p
      let p := { p with
        idempotency := Function.update p.idempotency record.scope (some <| storedRecord record) }
      return (p, { job, duplicateSuppressed := false, idempotency := some record })
    match p.idempotency record.scope with
    | none          => create
    | some existing =>
      if job.createdAt < existing.expiresAt then
        match p.jobs existing.jobID with
        | some existingJob =>
          .ok (p, { job := existingJob, duplicateSuppressed := true, idempotency := some existing })
        | none => .error .noRows
      else
        create

def updateJob (jobID : JobID) (f : Job → Job) (p : Postgres) : Postgres :=
  { p with jobs := Function.update p.jobs jobID ((p.jobs jobID).map f) }

-- A statement which updates a job does not tell whether the job exists.

def markJobQueued (job : Job) : Postgres → Postgres :=
  updateJob job.id ({ · with
    state           := job.state
    attempts        := job.attempts
    runAt           := job.runAt.stored
    updatedAt       := job.updatedAt.stored
    startedAt       := job.startedAt.map Time.stored
    finishedAt      := job.finishedAt.map Time.stored
    lastError       := job.lastError
    result          := job.result
    workerID        := ""
    leaseToken      := ""
    cancelRequested := job.cancelRequested
    blockedReason   := job.blockedReason
    throttleUntil   := job.throttleUntil.map Time.stored
    leaseExpiresAt  := job.leaseExpiresAt.map Time.stored
  })

def markJobActive (job : Job) : Postgres → Postgres :=
  updateJob job.id ({ · with
    state           := job.state
    attempts        := job.attempts
    runAt           := job.runAt.stored
    startedAt       := job.startedAt.map Time.stored
    lastHeartbeatAt := job.lastHeartbeatAt.map Time.stored
    updatedAt       := job.updatedAt.stored
    workerID        := job.workerID
    leaseToken      := job.leaseToken
    cancelRequested := job.cancelRequested
    blockedReason   := ""
    throttleUntil   := none
    leaseExpiresAt  := job.leaseExpiresAt.map Time.stored
  })

def markJobCompleted (job : Job) : Postgres → Postgres :=
  updateJob job.id ({ · with
    state          := job.state
    result         := job.result
    finishedAt     := job.finishedAt.map Time.stored
    updatedAt      := job.updatedAt.stored
    workerID       := job.workerID
    leaseToken     := ""
    executionMs    := job.executionMs
    leaseExpiresAt := none
  })

def markJobRetrying (job : Job) (retryAt : Time) : Postgres → Postgres :=
  updateJob job.id ({ · with
    state          := job.state
    lastError      := job.lastError
    runAt          := retryAt.stored
    updatedAt      := job.updatedAt.stored
    workerID       := ""
    leaseToken     := ""
    executionMs    := job.executionMs
    throttleUntil  := none
    leaseExpiresAt := none
  })

def markJobFailed (job : Job) : Postgres → Postgres :=
  updateJob job.id ({ · with
    state          := job.state
    lastError      := job.lastError
    finishedAt     := job.finishedAt.map Time.stored
    updatedAt      := job.updatedAt.stored
    workerID       := ""
    leaseToken     := ""
    executionMs    := job.executionMs
    leaseExpiresAt := none
  })

def markJobCanceled (job : Job) : Postgres → Postgres :=
  updateJob job.id ({ · with
    state           := job.state
    cancelRequested := job.cancelRequested
    lastError       := job.lastError
    finishedAt      := job.finishedAt.map Time.stored
    updatedAt       := job.updatedAt.stored
    leaseExpiresAt  := none
  })

def markJobThrottled (job : Job) : Postgres → Postgres :=
  updateJob job.id ({ · with
    state          := job.state
    lastError      := job.lastError
    throttleUntil  := job.throttleUntil.map Time.stored
    updatedAt      := job.updatedAt.stored
    workerID       := ""
    leaseToken     := ""
    leaseExpiresAt := none
  })

def updateJobHeartbeat (jobID : JobID) (workerID : WorkerID) (heartbeatAt leaseExpiresAt : Time) :
    Postgres → Postgres :=
  updateJob jobID ({ · with
    workerID        := workerID
    lastHeartbeatAt := heartbeatAt.stored
    leaseExpiresAt  := leaseExpiresAt.stored
    updatedAt       := heartbeatAt.stored
  })

def getJob (jobID : JobID) (p : Postgres) : Except Error Job :=
  match p.jobs jobID with
  | some job => .ok job
  | none     => .error .noRows

def listDependencies (jobID : JobID) (p : Postgres) : List JobDependency :=
  (p.dependencies.edges.filter (·.jobID = jobID)).insertionSort (·.dependsOnJobID ≤ ·.dependsOnJobID)

def listDependentJobs (dependsOnJobID : JobID) (p : Postgres) : List Job :=
  let edges := p.dependencies.edges.filter (·.dependsOnJobID = dependsOnJobID)
  (edges.filterMap fun e => p.jobs e.jobID).insertionSort (·.createdAt ≤ ·.createdAt)

def upsertJobAttempt (attempt : JobAttempt) (p : Postgres) : Postgres × Except Error Unit :=
  if (p.jobs attempt.jobID).isNone then
    (p, .error .foreignKeyViolation)
  else
    let row := { attempt with
      startedAt  := attempt.startedAt.stored
      finishedAt := attempt.finishedAt.map Time.stored
    }
    let rows := Function.update (p.attempts attempt.jobID) attempt.attempt (some row)
    ({ p with attempts := Function.update p.attempts attempt.jobID rows }, .ok ())

def upsertDeadLetter (deadLetter : DeadLetter) (p : Postgres) : Postgres × Except Error Unit :=
  if (p.jobs deadLetter.jobID).isNone then
    (p, .error .foreignKeyViolation)
  else
    let row := { deadLetter with
      failedAt       := deadLetter.failedAt.stored
      lastReplayedAt := deadLetter.lastReplayedAt.map Time.stored
    }
    ({ p with deadLetters := Function.update p.deadLetters deadLetter.jobID (some row) }, .ok ())

def deleteDeadLetters (jobIDs : List JobID) (p : Postgres) : Postgres :=
  { p with deadLetters := fun jobID => if jobID ∈ jobIDs then none else p.deadLetters jobID }

def updateIdempotencyOutcome (job : Job) (status : String) (now : Time) (p : Postgres) : Postgres :=
  { p with
    idempotency := fun scope => (p.idempotency scope).map fun record =>
      if record.jobID = job.id
      then { record with outcome := job.result, status, updatedAt := now.stored }
      else record
  }

end Postgres

-- The calls to the repository, each of which is a statement or a transaction.
inductive RepoCall
  | createJobBundle (job : Job) (dependencies : List JobID)
  | createJobWithIdempotency (job : Job) (dependencies : List JobID) (dedupeWindow : Duration)
  | getJob (jobID : JobID)
  | markJobQueued (job : Job)
  | markJobActive (job : Job)
  | markJobCompleted (job : Job)
  | markJobRetrying (job : Job) (retryAt : Time)
  | markJobFailed (job : Job)
  | markJobCanceled (job : Job)
  | markJobThrottled (job : Job)
  | updateJobHeartbeat (jobID : JobID) (workerID : WorkerID) (heartbeatAt leaseExpiresAt : Time)
  | listDependencies (jobID : JobID)
  | listDependentJobs (dependsOnJobID : JobID)
  | upsertJobAttempt (attempt : JobAttempt)
  | upsertDeadLetter (deadLetter : DeadLetter)
  | deleteDeadLetters (jobIDs : List JobID)
  | updateIdempotencyOutcome (job : Job) (status : String) (now : Time)

abbrev RepoCall.Resp : RepoCall → Type
  | createJobWithIdempotency .. => EnqueueResult
  | getJob ..                   => Job
  | listDependencies ..         => List JobDependency
  | listDependentJobs ..        => List Job
  | _                           => Unit

def Postgres.exec (p : Postgres) : (c : RepoCall) → Postgres × Except Error c.Resp
  | .createJobBundle job dependencies => p.createJobBundle job dependencies
  | .createJobWithIdempotency job dependencies dedupeWindow =>
    p.createJobWithIdempotency job dependencies dedupeWindow
  | .getJob jobID => (p, p.getJob jobID)
  | .markJobQueued job => (p.markJobQueued job, .ok ())
  | .markJobActive job => (p.markJobActive job, .ok ())
  | .markJobCompleted job => (p.markJobCompleted job, .ok ())
  | .markJobRetrying job retryAt => (p.markJobRetrying job retryAt, .ok ())
  | .markJobFailed job => (p.markJobFailed job, .ok ())
  | .markJobCanceled job => (p.markJobCanceled job, .ok ())
  | .markJobThrottled job => (p.markJobThrottled job, .ok ())
  | .updateJobHeartbeat jobID workerID heartbeatAt leaseExpiresAt =>
    (p.updateJobHeartbeat jobID workerID heartbeatAt leaseExpiresAt, .ok ())
  | .listDependencies jobID => (p, .ok (p.listDependencies jobID))
  | .listDependentJobs dependsOnJobID => (p, .ok (p.listDependentJobs dependsOnJobID))
  | .upsertJobAttempt attempt => p.upsertJobAttempt attempt
  | .upsertDeadLetter deadLetter => p.upsertDeadLetter deadLetter
  | .deleteDeadLetters jobIDs => (p.deleteDeadLetters jobIDs, .ok ())
  | .updateIdempotencyOutcome job status now => (p.updateIdempotencyOutcome job status now, .ok ())

end JobPlatform
