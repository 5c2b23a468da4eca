import JobPlatform.Library.Double
import Mathlib.Data.Int.ConditionallyCompleteOrder
import Mathlib.Tactic.NormNum

namespace JobPlatform

abbrev JobID := String
abbrev QueueName := String
abbrev WorkerID := String
abbrev Token := String

-- An instant, in nanoseconds since the Unix epoch.
abbrev Time := Int

-- A number of nanoseconds.
abbrev Duration := Int

-- The range of the source's `int64` is that of two's complement.
def wrap64 (n : Int) : Int :=
  n.bmod (2 ^ 64)

namespace Duration

def millisecond : Duration := 1000000
def second      : Duration := 1000 * millisecond
def minute      : Duration := 60 * second

def milliseconds (d : Duration) : Int :=
  d.tdiv 1000000

-- The conversion of a float64 to a duration. Values which do not fit become the smallest int64.
def ofDouble : Double → Duration
  | .int n => if -2 ^ 63 ≤ n ∧ n < 2 ^ 63 then n else -2 ^ 63
  | _      => -2 ^ 63

end Duration

namespace Time

-- The zero value of the source's time type is the first instant of the year one.
def zero : Time := -62135596800000 * 1000000

def unixMilli (t : Time) : Int :=
  t / 1000000

def ofUnixMilli (ms : Int) : Time :=
  ms * 1000000

-- PostgreSQL stores microseconds.
def stored (t : Time) : Time :=
  t / 1000 * 1000

theorem stored_mono {t t' : Time} (h : t ≤ t') : stored t ≤ stored t' :=
  Int.mul_le_mul_of_nonneg_right (Int.ediv_le_ediv (by decide) h) (by decide)

@[simp]
theorem stored_stored (t : Time) : stored (stored t) = stored t :=
  congrArg (· * 1000) (Int.mul_ediv_cancel (t / 1000) (by decide))

@[simp]
theorem unixMilli_stored (t : Time) : unixMilli (stored t) = unixMilli t := by
  simp only [unixMilli, stored]
  omega

@[simp]
theorem unixMilli_ofUnixMilli (ms : Int) : unixMilli (ofUnixMilli ms) = ms := by
  simp [unixMilli, ofUnixMilli]

theorem unixMilli_mono {t t' : Time} (h : t ≤ t') : unixMilli t ≤ unixMilli t' :=
  Int.ediv_le_ediv (by decide) h

theorem ofUnixMilli_le {ms : Int} {t : Time} : ofUnixMilli ms ≤ t ↔ ms ≤ unixMilli t :=
  (Int.le_ediv_iff_mul_le (by decide)).symm

end Time

inductive JobState
  | queued
  | scheduled
  | retrying
  | blocked
  | throttled
  | active
  | completed
  | failed
  | canceled
  deriving DecidableEq, Repr

def JobState.toString : JobState → String
  | queued    => "queued"
  | scheduled => "scheduled"
  | retrying  => "retrying"
  | blocked   => "blocked"
  | throttled => "throttled"
  | active    => "active"
  | completed => "completed"
  | failed    => "failed"
  | canceled  => "canceled"

instance : ToString JobState := ⟨JobState.toString⟩

inductive DependencyFailurePolicy
  | block
  | allowFailed
  deriving DecidableEq, Repr

-- Every policy that is not known is normalized to `block`.
def DependencyFailurePolicy.normalize (p : String) : DependencyFailurePolicy :=
  if p = "allow_failed" then allowFailed else block

def supportedQueues : List QueueName :=
  ["critical", "default", "low"]

-- A payload or result is the text of its JSON, where the empty text stands for its absence.
structure Job where
  id               : JobID
  type             : String
  queue            : QueueName
  tenantID         : String
  payload          : String
  priority         : Int
  attempts         : Int
  maxAttempts      : Int
  state            : JobState
  schemaVersion    : Int
  idempotencyKey   : String
  workflowID       : String
  parentJobID      : String
  dependencyPolicy : DependencyFailurePolicy
  blockedReason    : String
  createdAt        : Time
  updatedAt        : Time
  runAt            : Time
  startedAt        : Option Time
  finishedAt       : Option Time
  lastHeartbeatAt  : Option Time
  leaseExpiresAt   : Option Time
  throttleUntil    : Option Time
  lastError        : String
  result           : String
  workerID         : WorkerID
  leaseToken       : Token
  timeoutSeconds   : Int
  cancelRequested  : Bool
  executionMs      : Int
  deriving DecidableEq

structure JobRequest where
  type                : String
  queue               : QueueName
  tenantID            : String
  payload             : String
  priority            : Option Int
  maxAttempts         : Int
  delaySeconds        : Int
  scheduledAt         : Option Time
  timeoutSeconds      : Int
  schemaVersion       : Int
  idempotencyKey      : String
  dedupeWindowSeconds : Int
  dependencies        : List JobID
  dependencyPolicy    : String
  workflowID          : String
  parentJobID         : String
  deriving DecidableEq

-- The request which leaves everything to the defaults.
def JobRequest.plain (type : String) : JobRequest where
  type                := type
  queue               := ""
  tenantID            := ""
  payload             := "\x7b\x7d"
  priority            := none
  maxAttempts         := 0
  delaySeconds        := 0
  scheduledAt         := none
  timeoutSeconds      := 0
  schemaVersion       := 0
  idempotencyKey      := ""
  dedupeWindowSeconds := 0
  dependencies        := []
  dependencyPolicy    := ""
  workflowID          := ""
  parentJobID         := ""

structure LeasedJob where
  job        : Job
  leaseToken : Token
  deriving DecidableEq

structure IdempotencyRecord where
  scope          : String
  tenantID       : String
  jobType        : String
  idempotencyKey : String
  jobID          : JobID
  status         : String
  outcome        : String
  firstSeenAt    : Time
  updatedAt      : Time
  expiresAt      : Time
  deriving DecidableEq

structure EnqueueResult where
  job                 : Job
  duplicateSuppressed : Bool
  idempotency         : Option IdempotencyRecord
  deriving DecidableEq

structure JobDependency where
  jobID          : JobID
  dependsOnJobID : JobID
  deriving DecidableEq

structure JobAttempt where
  jobID        : JobID
  attempt      : Int
  workerID     : WorkerID
  leaseToken   : Token
  status       : String
  errorType    : String
  errorMessage : String
  leaseExpired : Bool
  startedAt    : Time
  finishedAt   : Option Time
  deriving DecidableEq

structure DeadLetter where
  jobID          : JobID
  queue          : QueueName
  workerID       : WorkerID
  errorType      : String
  errorMessage   : String
  failedAt       : Time
  lastAttempt    : Int
  replayCount    : Int
  lastReplayedAt : Option Time
  deriving DecidableEq

structure DeadLetterReplayRequest where
  jobIDs   : List JobID
  queue    : QueueName
  payload  : String
  jobType  : String
  priority : Option Int

inductive RateLimitMode
  | rate
  | concurrency
  deriving DecidableEq

inductive RateLimitScope
  | global
  | queue
  | jobType
  | tenant
  deriving DecidableEq

structure RateLimitPolicy where
  id            : String
  name          : String
  scope         : RateLimitScope
  scopeValue    : String
  mode          : RateLimitMode
  limit         : Int
  windowSeconds : Int
  enabled       : Bool
  deriving DecidableEq

-- The ways in which an operation of the platform fails.
inductive Error
  | invalid (message : String)
  | unavailable
  | nilReply
  | noRows
  | scriptError
  | uniqueViolation
  | foreignKeyViolation
  | notNullViolation
  | numericOutOfRange
  | nilDereference
  deriving DecidableEq

def JobRequest.validate (r : JobRequest) : Except Error Unit := do
  if r.type = "" then
    throw <| .invalid "type is required"
  if r.priority.any (fun p => p < 0 ∨ 9 < p) then
    throw <| .invalid "priority must be between 0 and 9"
  if r.maxAttempts < 0 then
    throw <| .invalid "maxAttempts cannot be negative"
  if r.timeoutSeconds < 0 then
    throw <| .invalid "timeoutSeconds cannot be negative"
  if r.dedupeWindowSeconds < 0 then
    throw <| .invalid "dedupeWindowSeconds cannot be negative"
  if r.schemaVersion < 0 then
    throw <| .invalid "schemaVersion cannot be negative"

def RateLimitPolicy.validate (p : RateLimitPolicy) : Except Error Unit := do
  if p.name = "" then
    throw <| .invalid "name is required"
  if p.limit ≤ 0 then
    throw <| .invalid "limit must be greater than zero"
  if p.mode = .rate ∧ p.windowSeconds ≤ 0 then
    throw <| .invalid "windowSeconds must be greater than zero for rate limits"

def normalizeQueue (queue : QueueName) : QueueName :=
  if queue = "" then "default" else queue

def tenantOrDefault (value : String) : String :=
  if value = "" then "default" else value

def idempotencyScope (tenantID jobType key : String) : String :=
  tenantID ++ ":" ++ jobType ++ ":" ++ key

-- The scope of the record that is kept for a request.
def JobRequest.scope (req : JobRequest) : String :=
  idempotencyScope (tenantOrDefault req.tenantID) req.type req.idempotencyKey

def computeBackoff (attempt : Int) (base capDelay : Duration) : Duration :=
  if attempt ≤ 0 then
    base
  else
    let backoff := Duration.ofDouble <| (Double.int base).mul (.pow2 (attempt - 1).toNat)
    if capDelay < backoff then capDelay else backoff

def waitingOn (count : Nat) : String :=
  "waiting on " ++ toString count ++ " dependencies"

-- The identifier is the random one that the source draws here.
def buildJob (now : Time) (req : JobRequest) (id : JobID) : Job :=
  let delayed := if 0 < req.delaySeconds then now + wrap64 (req.delaySeconds * Duration.second) else now
  let runAt := match req.scheduledAt with
    | some scheduledAt => if delayed < scheduledAt then scheduledAt else delayed
    | none             => delayed
  let blocked := 0 < req.dependencies.length
  {
    id, runAt
    type             := req.type
    queue            := normalizeQueue req.queue
    tenantID         := tenantOrDefault req.tenantID
    payload          := req.payload
    priority         := req.priority.getD 5
    attempts         := 0
    maxAttempts      := if req.maxAttempts ≤ 0 then 5 else req.maxAttempts
    state            := if blocked then .blocked else if now < runAt then .scheduled else .queued
    schemaVersion    := if req.schemaVersion ≤ 0 then 1 else req.schemaVersion
    idempotencyKey   := req.idempotencyKey
    workflowID       := req.workflowID
    parentJobID      := req.parentJobID
    dependencyPolicy := .normalize req.dependencyPolicy
    blockedReason    := if blocked then waitingOn req.dependencies.length else ""
    createdAt        := now
    updatedAt        := now
    startedAt        := none
    finishedAt       := none
    lastHeartbeatAt  := none
    leaseExpiresAt   := none
    throttleUntil    := none
    lastError        := ""
    result           := ""
    workerID         := ""
    leaseToken       := ""
    timeoutSeconds   := req.timeoutSeconds
    cancelRequested  := false
    executionMs      := 0
  }

theorem buildJob_state_eq (now : Time) (req : JobRequest) (id : JobID) :
    (buildJob now req id).state =
      if 0 < req.dependencies.length then .blocked
      else if now < (buildJob now req id).runAt then .scheduled
      else .queued :=
  rfl

theorem buildJob_state (now : Time) (req : JobRequest) (id : JobID) :
    (buildJob now req id).state = .blocked ∨ (buildJob now req id).state = .scheduled ∨
    (buildJob now req id).state = .queued := by
  rw [buildJob_state_eq]
  split
  · exact .inl rfl
  · split
    · exact .inr <| .inl rfl
    · exact .inr <| .inr rfl

-- The loop body of `sanitizeDependencies`, which only keeps the first occurrence of an identifier.
def keepDependency (selfID : JobID) (out : List JobID) (id : JobID) : List JobID :=
  if id = "" ∨ id = selfID ∨ id ∈ out then out else out ++ [id]

def sanitizeDependencies (ids : List JobID) (selfID : JobID) : List JobID :=
  ids.foldl (keepDependency selfID) []

section

variable {ids out : List JobID} {selfID i : JobID}

theorem keepDependency_nodup (h : out.Nodup) : (keepDependency selfID out i).Nodup := by
  unfold keepDependency
  split
  case isTrue  => exact h
  case isFalse hi =>
    have hm : i ∉ out := fun hm => hi <| .inr <| .inr hm
    have hd : ∀ a ∈ out, a ≠ i := fun a ha he => hm (he ▸ ha)
    simpa [List.nodup_append, h] using hd

theorem mem_keepDependency {id : JobID} :
    i ∈ keepDependency selfID out id ↔ i ∈ out ∨ (i = id ∧ i ≠ "" ∧ i ≠ selfID) := by
  unfold keepDependency
  split
  case isTrue h =>
    have hi : i = id ∧ i ≠ "" ∧ i ≠ selfID → i ∈ out
      | ⟨he, hn, hs⟩ => (he ▸ h).elim (absurd · hn) (·.elim (absurd · hs) (he ▸ ·))
    exact ⟨.inl, (·.elim (·) hi)⟩
  case isFalse h =>
    simp only [not_or] at h
    have hi (he : i = id) : i ≠ "" ∧ i ≠ selfID := he ▸ ⟨h.left, h.right.left⟩
    simp only [List.mem_append, List.mem_singleton]
    exact ⟨(·.imp_right fun he => ⟨he, hi he⟩), (·.imp_right And.left)⟩

theorem foldl_keepDependency_nodup (h : out.Nodup) : (ids.foldl (keepDependency selfID) out).Nodup := by
  induction ids generalizing out
  case nil           => exact h
  case cons id _ hi => exact hi (keepDependency_nodup h)

theorem mem_foldl_keepDependency :
    i ∈ ids.foldl (keepDependency selfID) out ↔ i ∈ out ∨ (i ∈ ids ∧ i ≠ "" ∧ i ≠ selfID) := by
  induction ids generalizing out
  case nil            => simp
  case cons id ids hi =>
    rw [List.foldl_cons, hi, mem_keepDependency, List.mem_cons, or_and_right, or_assoc]

theorem sanitizeDependencies_nodup : (sanitizeDependencies ids selfID).Nodup :=
  foldl_keepDependency_nodup List.nodup_nil

theorem mem_sanitizeDependencies :
    i ∈ sanitizeDependencies ids selfID ↔ i ∈ ids ∧ i ≠ "" ∧ i ≠ selfID := by
  simp [sanitizeDependencies, mem_foldl_keepDependency]

end
end JobPlatform
