import JobPlatform.Library.Decimal
import JobPlatform.Queue.Hash

-- How the hash of a job is written to Redis and read back, where all texts are bytes.
namespace JobPlatform.Encoding

open Decimal

-- The bytes of a text of ASCII characters.
def ascii (s : String) : Bytes :=
  ofChars s.toList

-- A job with any texts and with machine integers. A missing payload or result is not the empty one.
structure RawJob where
  id               : Bytes
  type             : Bytes
  queue            : Bytes
  tenantID         : Bytes
  payload          : Option Bytes
  priority         : Int64
  attempts         : Int64
  maxAttempts      : Int64
  state            : Bytes
  schemaVersion    : Int64
  idempotencyKey   : Bytes
  workflowID       : Bytes
  parentJobID      : Bytes
  dependencyPolicy : Bytes
  blockedReason    : Bytes
  createdAt        : Time
  updatedAt        : Time
  runAt            : Time
  startedAt        : Option Time
  finishedAt       : Option Time
  lastHeartbeatAt  : Option Time
  leaseExpiresAt   : Option Time
  throttleUntil    : Option Time
  lastError        : Bytes
  result           : Option Bytes
  workerID         : Bytes
  leaseToken       : Bytes
  timeoutSeconds   : Int64
  cancelRequested  : Bool
  executionMs      : Int64
  deriving DecidableEq

def normalize (p : Bytes) : Bytes :=
  if p = ascii "allow_failed" then ascii "allow_failed" else ascii "block"

-- The values of a hash before they are written, and their texts in Redis.
inductive HashValue
  | text (s : Bytes)
  | int (n : Int64)
  deriving DecidableEq

def HashValue.bytes : HashValue → Bytes
  | text s => s
  | int n  => formatInt n.toInt

namespace HashValue

@[simp]
theorem bytes_text {s : Bytes} : (text s).bytes = s :=
  rfl

@[simp]
theorem bytes_int {n : Int64} : (int n).bytes = formatInt n.toInt :=
  rfl

end HashValue

abbrev RawHash := List (String × HashValue)

def unixMilli (t : Time) : Int64 :=
  .ofInt t.unixMilli

def boolToInt (value : Bool) : Int64 :=
  if value then 1 else 0

def millisOrEmpty : Option Time → HashValue
  | some t => .int (unixMilli t)
  | none   => .text []

def jobHash (job : RawJob) : RawHash := [
  ("id",                .text job.id),
  ("type",              .text job.type),
  ("queue",             .text job.queue),
  ("tenant_id",         .text job.tenantID),
  ("payload",           .text (job.payload.getD [])),
  ("priority",          .int job.priority),
  ("attempts",          .int job.attempts),
  ("max_attempts",      .int job.maxAttempts),
  ("state",             .text job.state),
  ("schema_version",    .int job.schemaVersion),
  ("idempotency_key",   .text job.idempotencyKey),
  ("workflow_id",       .text job.workflowID),
  ("parent_job_id",     .text job.parentJobID),
  ("dependency_policy", .text (normalize job.dependencyPolicy)),
  ("blocked_reason",    .text job.blockedReason),
  ("created_at",        .int (unixMilli job.createdAt)),
  ("updated_at",        .int (unixMilli job.updatedAt)),
  ("run_at",            .int (unixMilli job.runAt)),
  ("last_error",        .text job.lastError),
  ("worker_id",         .text job.workerID),
  ("lease_token",       .text job.leaseToken),
  ("timeout_seconds",   .int job.timeoutSeconds),
  ("cancel_requested",  .int (boolToInt job.cancelRequested)),
  ("execution_ms",      .int job.executionMs),
  ("started_at",        millisOrEmpty job.startedAt),
  ("finished_at",       millisOrEmpty job.finishedAt),
  ("last_heartbeat_at", millisOrEmpty job.lastHeartbeatAt),
  ("lease_expires_at",  millisOrEmpty job.leaseExpiresAt),
  ("throttle_until",    millisOrEmpty job.throttleUntil),
  ("result",            .text (job.result.getD []))
]

-- The fields of a hash as they are read from Redis, where a missing one is empty.
def RawHash.strings (h : RawHash) (key : String) : Bytes :=
  (h.lookup key).elim [] HashValue.bytes

def parseInt (value : Bytes) : Int64 :=
  .ofInt (Decimal.parseInt 64 value).1

def parseMillis (value : Bytes) : Time :=
  if value = [] then .zero else .ofUnixMilli (parseInt value).toInt

def optionalMillis (value : Bytes) : Option Time :=
  if value = [] then none else some (parseMillis value)

def jobFromHash (values : String → Bytes) : RawJob where
  id               := values "id"
  type             := values "type"
  queue            := values "queue"
  tenantID         := values "tenant_id"
  payload          := some (values "payload")
  priority         := parseInt (values "priority")
  attempts         := parseInt (values "attempts")
  maxAttempts      := parseInt (values "max_attempts")
  state            := values "state"
  schemaVersion    := parseInt (values "schema_version")
  idempotencyKey   := values "idempotency_key"
  workflowID       := values "workflow_id"
  parentJobID      := values "parent_job_id"
  dependencyPolicy := normalize (values "dependency_policy")
  blockedReason    := values "blocked_reason"
  lastError        := values "last_error"
  workerID         := values "worker_id"
  leaseToken       := values "lease_token"
  timeoutSeconds   := parseInt (values "timeout_seconds")
  cancelRequested  := values "cancel_requested" = ascii "1"
  executionMs      := parseInt (values "execution_ms")
  createdAt        := parseMillis (values "created_at")
  updatedAt        := parseMillis (values "updated_at")
  runAt            := parseMillis (values "run_at")
  startedAt        := optionalMillis (values "started_at")
  finishedAt       := optionalMillis (values "finished_at")
  lastHeartbeatAt  := optionalMillis (values "last_heartbeat_at")
  leaseExpiresAt   := optionalMillis (values "lease_expires_at")
  throttleUntil    := optionalMillis (values "throttle_until")
  result           := if values "result" ≠ [] then some (values "result") else none

-- The milliseconds of a time are a machine integer.
def Fits (t : Time) : Prop :=
  -2 ^ 63 ≤ t.unixMilli ∧ t.unixMilli < 2 ^ 63

instance {t} : Decidable (Fits t) :=
  inferInstanceAs (Decidable (_ ∧ _))

def truncate (t : Time) : Time :=
  .ofUnixMilli t.unixMilli

variable {t : Time} {n : Int64} {p : Bytes} {b : Bool} {o : Option Time}

@[simp]
theorem normalize_normalize : normalize (normalize p) = normalize p := by
  simp only [normalize]
  split
  case isTrue  => rw [if_pos rfl]
  case isFalse => split <;> simp_all

theorem formatInt_ne_nil {z : Int} : formatInt z ≠ [] := by
  cases z
  case ofNat   => exact fun h => Nat.toDigits_ne_nil (List.map_eq_nil_iff.mp h)
  case negSucc => exact fun h => nomatch List.map_eq_nil_iff.mp h

@[simp]
theorem parseInt_formatInt : parseInt (formatInt n.toInt) = n := by
  rw [parseInt, Decimal.parseInt_formatInt (by decide) n.le_toInt n.toInt_lt]
  exact Int64.ofInt_toInt n

theorem toInt_unixMilli (h : Fits t) : (unixMilli t).toInt = t.unixMilli :=
  Int64.toInt_ofInt_of_le h.left h.right

@[simp]
theorem unixMilli_truncate : unixMilli (truncate t) = unixMilli t := by
  rw [unixMilli, truncate, Time.unixMilli_ofUnixMilli, unixMilli]

theorem parseMillis_unixMilli (h : Fits t) : parseMillis (formatInt (unixMilli t).toInt) = truncate t := by
  rw [parseMillis, if_neg formatInt_ne_nil, parseInt_formatInt, toInt_unixMilli h, truncate]

theorem optionalMillis_millisOrEmpty (h : ∀ t ∈ o, Fits t) :
    optionalMillis (millisOrEmpty o).bytes = o.map truncate := by
  cases o
  case none   => rfl
  case some t =>
    rw [optionalMillis, millisOrEmpty, HashValue.bytes_int, if_neg formatInt_ne_nil, parseMillis_unixMilli (h t rfl)]
    rfl

@[simp]
theorem boolToInt_eq_one : (formatInt (boolToInt b).toInt = ascii "1") = (b = true) := by
  cases b <;> decide

namespace RawJob

section

variable {job : RawJob}

-- All times of the job are machine integers in milliseconds.
structure Fits (job : RawJob) : Prop where
  createdAt       : Encoding.Fits job.createdAt
  updatedAt       : Encoding.Fits job.updatedAt
  runAt           : Encoding.Fits job.runAt
  startedAt       : ∀ t ∈ job.startedAt, Encoding.Fits t
  finishedAt      : ∀ t ∈ job.finishedAt, Encoding.Fits t
  lastHeartbeatAt : ∀ t ∈ job.lastHeartbeatAt, Encoding.Fits t
  leaseExpiresAt  : ∀ t ∈ job.leaseExpiresAt, Encoding.Fits t
  throttleUntil   : ∀ t ∈ job.throttleUntil, Encoding.Fits t

-- What Redis keeps of a job: its times in milliseconds and a policy that is known. An empty payload is
-- not missing, and an empty result is.
def stored (job : RawJob) : RawJob :=
  { job with
    payload          := some (job.payload.getD [])
    dependencyPolicy := normalize job.dependencyPolicy
    createdAt        := truncate job.createdAt
    updatedAt        := truncate job.updatedAt
    runAt            := truncate job.runAt
    startedAt        := job.startedAt.map truncate
    finishedAt       := job.finishedAt.map truncate
    lastHeartbeatAt  := job.lastHeartbeatAt.map truncate
    leaseExpiresAt   := job.leaseExpiresAt.map truncate
    throttleUntil    := job.throttleUntil.map truncate
    result           := job.result.filter (· ≠ [])
  }

theorem jobFromHash_strings (h : job.Fits) : jobFromHash (jobHash job).strings = job.stored := by
  have hs : (jobHash job).strings "result" = job.result.getD [] := by
    simp only [RawHash.strings, jobHash, List.lookup_cons, String.reduceBEq, Option.elim, HashValue.bytes_text]
  have hr : (if (jobHash job).strings "result" ≠ [] then some ((jobHash job).strings "result") else none) =
      job.result.filter (· ≠ []) := by
    rw [hs]
    cases job.result
    case none   => rfl
    case some s => cases s <;> rfl
  simp only [jobFromHash, hr]
  simp only [RawHash.strings, jobHash, List.lookup_cons, String.reduceBEq, Option.elim, HashValue.bytes_text,
    HashValue.bytes_int, parseInt_formatInt, parseMillis_unixMilli h.createdAt, parseMillis_unixMilli h.updatedAt,
    parseMillis_unixMilli h.runAt, optionalMillis_millisOrEmpty h.startedAt, optionalMillis_millisOrEmpty h.finishedAt,
    optionalMillis_millisOrEmpty h.lastHeartbeatAt, optionalMillis_millisOrEmpty h.leaseExpiresAt,
    optionalMillis_millisOrEmpty h.throttleUntil, normalize_normalize, boolToInt_eq_one, Bool.decide_eq_true, stored]

theorem jobHash_stored : jobHash job.stored = jobHash job := by
  have ho (o : Option Time) : millisOrEmpty (o.map truncate) = millisOrEmpty o := by
    cases o
    case none => rfl
    case some => rw [Option.map_some, millisOrEmpty, unixMilli_truncate, millisOrEmpty]
  have hr : (job.result.filter (· ≠ [])).getD [] = job.result.getD [] := by
    cases job.result
    case none   => rfl
    case some s => cases s <;> rfl
  simp only [jobHash, stored, Option.getD_some, normalize_normalize, unixMilli_truncate, ho, hr]

-- What is read back is what Redis keeps, and it is written in the same way again.
theorem jobFromHash_jobHash (h : job.Fits) : jobFromHash (jobHash job).strings = job.stored ∧
    jobHash (jobFromHash (jobHash job).strings) = jobHash job := by
  have hs := jobFromHash_strings h
  exact ⟨hs, hs.symm ▸ jobHash_stored⟩

end

namespace Sample

def job : RawJob where
  id               := ascii "job-1"
  type             := ascii "email.send"
  queue            := ascii "default"
  tenantID         := []
  payload          := none
  priority         := -9223372036854775808
  attempts         := 9223372036854775807
  maxAttempts      := 3
  state            := [255, 0]
  schemaVersion    := 1
  idempotencyKey   := []
  workflowID       := []
  parentJobID      := []
  dependencyPolicy := ascii "unknown"
  blockedReason    := []
  createdAt        := 1700000000123456789
  updatedAt        := .zero
  runAt            := -1
  startedAt        := some 1700000000123456789
  finishedAt       := none
  lastHeartbeatAt  := none
  leaseExpiresAt   := none
  throttleUntil    := none
  lastError        := []
  result           := some []
  workerID         := []
  leaseToken       := []
  timeoutSeconds   := 30
  cancelRequested  := true
  executionMs      := -1

theorem fits : job.Fits where
  createdAt       := by decide
  updatedAt       := by decide
  runAt           := by decide
  startedAt       := by decide
  finishedAt      := by decide
  lastHeartbeatAt := by decide
  leaseExpiresAt  := by decide
  throttleUntil   := by decide

end Sample

theorem jobFromHash_jobHash_sample : jobFromHash (jobHash Sample.job).strings = Sample.job.stored ∧
    jobHash (jobFromHash (jobHash Sample.job).strings) = jobHash Sample.job :=
  jobFromHash_jobHash Sample.fits

-- The bytes of a job whose state and policy are known.
def ofJob (job : Job) : RawJob where
  id               := job.id.toUTF8.toList
  type             := job.type.toUTF8.toList
  queue            := job.queue.toUTF8.toList
  tenantID         := job.tenantID.toUTF8.toList
  payload          := some job.payload.toUTF8.toList
  priority         := .ofInt job.priority
  attempts         := .ofInt job.attempts
  maxAttempts      := .ofInt job.maxAttempts
  state            := ascii (toString job.state)
  schemaVersion    := .ofInt job.schemaVersion
  idempotencyKey   := job.idempotencyKey.toUTF8.toList
  workflowID       := job.workflowID.toUTF8.toList
  parentJobID      := job.parentJobID.toUTF8.toList
  dependencyPolicy := normalize (ascii (if job.dependencyPolicy = .allowFailed then "allow_failed" else "block"))
  blockedReason    := job.blockedReason.toUTF8.toList
  createdAt        := job.createdAt
  updatedAt        := job.updatedAt
  runAt            := job.runAt
  startedAt        := job.startedAt
  finishedAt       := job.finishedAt
  lastHeartbeatAt  := job.lastHeartbeatAt
  leaseExpiresAt   := job.leaseExpiresAt
  throttleUntil    := job.throttleUntil
  lastError        := job.lastError.toUTF8.toList
  result           := (some job.result.toUTF8.toList).filter (· ≠ [])
  workerID         := job.workerID.toUTF8.toList
  leaseToken       := job.leaseToken.toUTF8.toList
  timeoutSeconds   := .ofInt job.timeoutSeconds
  cancelRequested  := job.cancelRequested
  executionMs      := .ofInt job.executionMs

-- The hash that holds the values themselves stands for the one that holds their texts.
theorem jobFromHash_ofJob {job : Job} (h : (ofJob job).Fits) : jobFromHash (jobHash (ofJob job)).strings =
    ofJob (JobPlatform.jobFromHash (JobPlatform.jobHash job)) := by
  have hm (o : Option Time) : (o.map Time.unixMilli).map Time.ofUnixMilli = o.map truncate := by
    rw [Option.map_map]
    rfl
  have ht (t : Time) : Time.ofUnixMilli t.unixMilli = truncate t := rfl
  rw [jobFromHash_strings h]
  simp only [stored, ofJob, JobPlatform.jobFromHash, JobPlatform.jobHash, Option.getD_some, hm,
    ht, normalize_normalize, Option.filter_filter, Bool.and_self]

end RawJob
end JobPlatform.Encoding
