import JobPlatform.Queue.Redis

namespace JobPlatform

-- The function of Redis that computes the hexadecimal digest of a text.
structure SHA1 where
  hex        : String → String
  length_hex : ∀ s, (hex s).length = 40

theorem SHA1.hex_ne_empty (sha1 : SHA1) (s : String) : sha1.hex s ≠ "" := by
  intro h
  have hl := sha1.length_hex s
  simp [h] at hl

-- The digests of the texts that are used in the examples of this development.
def SHA1.sample : SHA1 where
  hex s :=
    if s = "worker-1:job-1:1700000000000" then "5567c106259ceacb00ef1701815b187dca3f70c3"
    else if s = "worker-2:job-1:1700000060000" then "351b5c52e7d90154362cd0180d6543d8020f25ba"
    else "da39a3ee5e6b4b0d3255bfef95601890afd80709"
  length_hex s := by
    split
    · decide
    · split <;> decide

structure RedisBroker where
  sha1           : SHA1
  baseRetryDelay : Duration
  maxRetryDelay  : Duration

-- The broker with the default delays of the configuration.
def RedisBroker.sample : RedisBroker where
  sha1           := .sample
  baseRetryDelay := 5 * Duration.second
  maxRetryDelay  := 15 * Duration.minute

structure RecoveredLease where
  jobID   : JobID
  state   : JobState
  retryAt : Option Time
  deriving DecidableEq

def readyKeysForQueues (queues : List QueueName) : List ListKey :=
  let queues := if queues = [] then supportedQueues else queues
  queues.flatMap fun queueName => [9, 8, 7, 6, 5, 4, 3, 2, 1, 0].map fun priority =>
    .ready queueName priority

def JobState.isRunnable (s : JobState) : Bool :=
  s = queued ∨ s = retrying ∨ s = scheduled

-- What the scripts and pipelines write into the hash of a job.
namespace JobHash

variable (h : JobHash)

def lease (workerID : WorkerID) (leaseToken : Token) (leaseTTL now : Int) : JobHash :=
  { h with
    attempts        := h.attempts + 1
    state           := .active
    updatedAt       := now
    startedAt       := now
    lastHeartbeatAt := now
    leaseExpiresAt  := some (now + leaseTTL)
    workerID        := workerID
    leaseToken      := leaseToken
    blockedReason   := ""
    throttleUntil   := none
  }

def renew (leaseTTL now : Int) : JobHash :=
  { h with
    updatedAt       := now
    lastHeartbeatAt := now
    leaseExpiresAt  := some (now + leaseTTL)
  }

def complete (job : Job) (finishedAt : Int) (result : String) : JobHash :=
  { h with
    state          := .completed
    updatedAt      := finishedAt
    finishedAt     := finishedAt
    workerID       := job.workerID
    leaseToken     := ""
    leaseExpiresAt := none
    throttleUntil  := none
    result         := result
    executionMs    := job.executionMs
  }

def retryAfterFailure (errMessage : String) (retryAt failedAt : Int) : JobHash :=
  { h with
    state          := .retrying
    updatedAt      := failedAt
    lastError      := errMessage
    runAt          := retryAt
    workerID       := ""
    leaseToken     := ""
    leaseExpiresAt := none
    throttleUntil  := none
  }

def fail (errMessage : String) (failedAt : Int) : JobHash :=
  { h with
    state          := .failed
    updatedAt      := failedAt
    finishedAt     := failedAt
    lastError      := errMessage
    workerID       := ""
    leaseToken     := ""
    leaseExpiresAt := none
    throttleUntil  := none
  }

def throttle (reason : String) (retryAt now : Int) : JobHash :=
  { h with
    state          := .throttled
    updatedAt      := now
    lastError      := reason
    runAt          := retryAt
    throttleUntil  := retryAt
    workerID       := ""
    leaseToken     := ""
    leaseExpiresAt := none
  }

def activate (now : Int) : JobHash :=
  { h with
    state          := .queued
    updatedAt      := now
    workerID       := ""
    leaseToken     := ""
    throttleUntil  := none
    leaseExpiresAt := none
  }

def cancelExpired (now : Int) : JobHash :=
  { h with
    state          := .canceled
    updatedAt      := now
    finishedAt     := now
    lastError      := "canceled while active"
    workerID       := ""
    leaseToken     := ""
    leaseExpiresAt := none
  }

def retryExpired (retryAt now : Int) : JobHash :=
  { h with
    state          := .retrying
    updatedAt      := now
    lastError      := "lease expired"
    runAt          := retryAt
    workerID       := ""
    leaseToken     := ""
    leaseExpiresAt := none
  }

def failExpired (now : Int) : JobHash :=
  { h with
    state          := .failed
    updatedAt      := now
    finishedAt     := now
    lastError      := "lease expired"
    workerID       := ""
    leaseToken     := ""
    leaseExpiresAt := none
  }

def retry (job : Job) (now : Int) : JobHash :=
  { h with
    state           := .queued
    queue           := job.queue
    payload         := job.payload
    priority        := job.priority
    runAt           := job.runAt.unixMilli
    attempts        := job.attempts
    updatedAt       := now
    startedAt       := none
    finishedAt      := none
    lastError       := ""
    leaseToken      := ""
    workerID        := ""
    cancelRequested := false
    result          := ""
    blockedReason   := ""
    throttleUntil   := none
    leaseExpiresAt  := none
  }

def schedule : JobHash :=
  { h with state := .scheduled }

def requestCancel (now : Int) : JobHash :=
  { h with
    cancelRequested := true
    updatedAt       := now
  }

def cancel (now : Int) : JobHash :=
  { h with
    state          := .canceled
    finishedAt     := now
    leaseExpiresAt := none
    throttleUntil  := none
  }

end JobHash

namespace RedisBroker

section

variable (b : RedisBroker)

def leaseTokenOf (workerID : WorkerID) (jobID : JobID) (now : Int) : Token :=
  b.sha1.hex <| workerID ++ ":" ++ jobID ++ ":" ++ toString now

@[simp]
theorem leaseTokenOf_ne_empty (workerID : WorkerID) (jobID : JobID) (now : Int) :
    b.leaseTokenOf workerID jobID now ≠ "" :=
  b.sha1.hex_ne_empty _

-- What `dequeueLua` does with the first runnable job that it finds.
def lease (workerID : WorkerID) (leaseTTL now : Int) (jobID : JobID) (r : Redis) : Redis :=
  (r.hset jobID (·.lease workerID (b.leaseTokenOf workerID jobID now) leaseTTL now)).zadd
    .activeLeases jobID (.ofInt (now + leaseTTL))

-- One job is popped from each of the lists until one of them can be leased. The others are lost.
def dequeueLua (workerID : WorkerID) (leaseTTL now : Int) :
    List ListKey → Redis → Redis × Option (JobID × Token)
  | [],          r => (r, none)
  | key :: keys, r =>
    match r.lists key with
    | []            => dequeueLua workerID leaseTTL now keys r
    | jobID :: rest =>
      if (r.jobs jobID).any (·.state.isRunnable) then
        (b.lease workerID leaseTTL now jobID (r.lset key rest),
          some (jobID, b.leaseTokenOf workerID jobID now))
      else
        dequeueLua workerID leaseTTL now keys (r.lset key rest)

end

def renew (leaseTTL now : Int) (jobID : JobID) (r : Redis) : Redis :=
  (r.hset jobID (·.renew leaseTTL now)).zadd .activeLeases jobID (.ofInt (now + leaseTTL))

def heartbeatLua (jobID : JobID) (leaseToken : Token) (leaseTTL now : Int) (r : Redis) : Redis × Bool :=
  if (r.jobs jobID).any fun h => h.leaseToken = leaseToken ∧ h.state = .active then
    (renew leaseTTL now jobID r, true)
  else
    (r, false)

-- The scripts which end a lease check nothing but its token, and go on with `body`.
def endLease (jobID : JobID) (leaseToken : Token) (body : Redis → Redis) (r : Redis) : Redis × Bool :=
  if (r.jobs jobID).any (·.leaseToken = leaseToken) then
    (body (r.zrem .activeLeases jobID), true)
  else
    (r, false)

def completeLua (job : Job) (leaseToken : Token) (finishedAt : Int) (result : String) :
    Redis → Redis × Bool :=
  endLease job.id leaseToken fun r => r.hset job.id (·.complete job finishedAt result)

def failLua (job : Job) (leaseToken : Token) (errMessage : String) (retryAt : Option Int)
    (failedAt : Int) : Redis → Redis × Bool :=
  endLease job.id leaseToken fun r =>
    match retryAt with
    | some retryAt =>
      (r.hset job.id (·.retryAfterFailure errMessage retryAt failedAt)).zadd
        .delayed job.id (.ofInt retryAt)
    | none =>
      (r.hset job.id (·.fail errMessage failedAt)).lpush (.dlq job.queue) job.id

def throttleLua (job : Job) (leaseToken : Token) (now : Int) (reason : String) (retryAt : Int) :
    Redis → Redis × Bool :=
  endLease job.id leaseToken fun r =>
    (r.hset job.id (·.throttle reason retryAt now)).zadd .delayed job.id (.ofInt retryAt)

-- The loop body of `activateDueLua`, which returns whether the job has been activated.
def activate (now : Int) (jobID : JobID) (r : Redis) : Redis × Bool :=
  match r.jobs jobID with
  | none   => (r.zrem .delayed jobID, false)
  | some h =>
    (((r.zrem .delayed jobID).hset jobID (·.activate now)).lpush (.ready h.queue h.priority) jobID, true)

def activateAll (now : Int) : List JobID → Redis → Redis × List JobID
  | [],            r => (r, [])
  | jobID :: rest, r =>
    if ((r.zsets .delayed).score? jobID).isSome then
      let (r', activated) := activate now jobID r
      let (r'', jobIDs)   := activateAll now rest r'
      (r'', if activated then jobID :: jobIDs else jobIDs)
    else
      activateAll now rest r

def activateDueLua (limit now : Int) (r : Redis) : Redis × List JobID :=
  activateAll now ((r.zsets .delayed).rangeByScore (.ofInt now) limit) r

section

variable (b : RedisBroker)

-- The delay of `recoverExpiredLua`, which computes with doubles.
def retryDelay (attempts : Int) : Double :=
  let power := if attempts - 1 < 0 then 0 else attempts - 1
  let delay := (Double.int b.baseRetryDelay.milliseconds).mul (.pow2 power.toNat)
  if delay.gt (.int b.maxRetryDelay.milliseconds) then .int b.maxRetryDelay.milliseconds else delay

def retryAt (now attempts : Int) : Double :=
  (Double.int now).add (b.retryDelay attempts)

-- A number is stored with up to 17 digits, and its text is no integer if it has more of them.
def storedMillis : Double → Int
  | .int n => if n.natAbs < 10 ^ 17 then n else 0
  | _      => 0

-- The broker parses the text of the number, which has up to 14 digits.
def reportedRetryAt : Double → Option Time
  | .int n => if n ≠ 0 ∧ n.natAbs < 10 ^ 14 then some (.ofUnixMilli n) else none
  | _      => none

-- The loop body of `recoverExpiredLua` for a job that exists. A score which is not a number aborts
-- the script, but what has been written by then stays.
def recover (now : Int) (jobID : JobID) (h : JobHash) (r : Redis) :
    Redis × Except Error RecoveredLease :=
  if h.cancelRequested then
    (r.hset jobID (·.cancelExpired now), .ok ⟨jobID, .canceled, none⟩)
  else if h.attempts < h.maxAttempts.getD 1 then
    let retryAt := b.retryAt now h.attempts
    let r := r.hset jobID (·.retryExpired (storedMillis retryAt) now)
    match retryAt.toScore with
    | none       => (r, .error .scriptError)
    | some score => (r.zadd .delayed jobID score, .ok ⟨jobID, .retrying, reportedRetryAt retryAt⟩)
  else
    ((r.hset jobID (·.failExpired now)).lpush (.dlq h.queue) jobID, .ok ⟨jobID, .failed, none⟩)

def recoverAll (now : Int) : List JobID → Redis → Redis × Except Error (List RecoveredLease)
  | [],            r => (r, .ok [])
  | jobID :: rest, r =>
    if ((r.zsets .activeLeases).score? jobID).isSome then
      match r.jobs jobID with
      | none   => recoverAll now rest (r.zrem .activeLeases jobID)
      | some h =>
        match b.recover now jobID h (r.zrem .activeLeases jobID) with
        | (r', .error e) => (r', .error e)
        | (r', .ok item) =>
          let (r'', items) := recoverAll now rest r'
          (r'', items.map (item :: ·))
    else
      recoverAll now rest r

def recoverExpiredLua (limit now : Int) (r : Redis) : Redis × Except Error (List RecoveredLease) :=
  b.recoverAll now ((r.zsets .activeLeases).rangeByScore (.ofInt now) limit) r

end

-- The pipelines of `Enqueue`, `Retry` and `Cancel` take effect at once, just like the scripts do.

def enqueue (job : Job) (now : Time) (r : Redis) : Redis :=
  let r := r.hset job.id fun _ => jobHash job
  if job.state = .blocked then
    r
  else if job.state = .scheduled ∨ job.state = .retrying ∨ job.state = .throttled ∨ now < job.runAt then
    r.zadd .delayed job.id (.ofInt job.runAt.unixMilli)
  else if job.state = .queued then
    r.lpush (.ready job.queue job.priority) job.id
  else
    r

def loadJob (jobID : JobID) (r : Redis) : Except Error Job :=
  match r.jobs jobID with
  | none   => .error .nilReply
  | some h => .ok (jobFromHash h)

def retry (job : Job) (now : Time) (r : Redis) : Redis :=
  let r := r.hset job.id (·.retry job now.unixMilli)
  let r := if now < job.runAt
    then (r.hset job.id (·.schedule)).zadd .delayed job.id (.ofInt job.runAt.unixMilli)
    else r.lpush (.ready job.queue job.priority) job.id
  r.lrem (.dlq job.queue) job.id

-- The states in which `Cancel` takes a job out of its queue.
def isCancellable (s : JobState) : Bool :=
  s = .queued ∨ s = .scheduled ∨ s = .retrying ∨ s = .throttled ∨ s = .failed ∨ s = .blocked

-- The second half of `Cancel`, where `job` is what it has loaded in the first half.
def cancelLoaded (jobID : JobID) (job : Job) (now : Int) (r : Redis) : Redis :=
  let r := r.hset jobID (·.requestCancel now)
  if isCancellable job.state then
    (((r.lrem (.ready job.queue job.priority) jobID).zrem .delayed jobID).lrem
      (.dlq job.queue) jobID).hset jobID (·.cancel now)
  else
    r

end RedisBroker

-- The calls to the broker which take effect at once. `Dequeue` and `Cancel` are made up of two of
-- them, where the other one is `loadJob`.
inductive BrokerCall
  | enqueue (job : Job) (now : Time)
  | loadJob (jobID : JobID)
  | dequeue (workerID : WorkerID) (queues : List QueueName) (leaseTTL : Duration) (now : Time)
  | heartbeat (jobID : JobID) (leaseToken : Token) (leaseTTL : Duration) (now : Time)
  | complete (job : Job) (leaseToken : Token) (result : String) (finishedAt : Time)
  | fail (job : Job) (leaseToken : Token) (errMessage : String) (retryAt : Option Time)
      (failedAt : Time)
  | requeueThrottled (job : Job) (leaseToken : Token) (retryAt : Time) (reason : String) (now : Time)
  | activateDue (limit : Int) (now : Time)
  | recoverExpired (limit : Int) (now : Time)
  | retry (job : Job) (now : Time)
  | cancelLoaded (jobID : JobID) (job : Job) (now : Time)

abbrev BrokerCall.Resp : BrokerCall → Type
  | enqueue ..          => Unit
  | loadJob ..          => Job
  | dequeue ..          => Option (JobID × Token)
  | heartbeat ..        => Bool
  | complete ..         => Bool
  | fail ..             => Bool
  | requeueThrottled .. => Bool
  | activateDue ..      => List JobID
  | recoverExpired ..   => List RecoveredLease
  | retry ..            => Unit
  | cancelLoaded ..     => Unit

def RedisBroker.exec (b : RedisBroker) (r : Redis) : (c : BrokerCall) → Redis × Except Error c.Resp
  | .enqueue job now => (enqueue job now r, .ok ())
  | .loadJob jobID => (r, loadJob jobID r)
  | .dequeue workerID queues leaseTTL now =>
    (b.dequeueLua workerID leaseTTL.milliseconds now.unixMilli (readyKeysForQueues queues) r).map id .ok
  | .heartbeat jobID leaseToken leaseTTL now =>
    (heartbeatLua jobID leaseToken leaseTTL.milliseconds now.unixMilli r).map id .ok
  | .complete job leaseToken result finishedAt =>
    (completeLua job leaseToken finishedAt.unixMilli result r).map id .ok
  | .fail job leaseToken errMessage retryAt failedAt =>
    (failLua job leaseToken errMessage (retryAt.map Time.unixMilli) failedAt.unixMilli r).map id .ok
  | .requeueThrottled job leaseToken retryAt reason now =>
    (throttleLua job leaseToken now.unixMilli reason retryAt.unixMilli r).map id .ok
  | .activateDue limit now => (activateDueLua limit now.unixMilli r).map id .ok
  | .recoverExpired limit now => b.recoverExpiredLua limit now.unixMilli r
  | .retry job now => (retry job now r, .ok ())
  | .cancelLoaded jobID job now => (cancelLoaded jobID job now.unixMilli r, .ok ())

end JobPlatform
