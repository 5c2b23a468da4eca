import JobPlatform.Library.Prog
import JobPlatform.Queue.Broker
import JobPlatform.Store.Postgres
import JobPlatform.Limits.Redis

namespace JobPlatform

-- The configuration of a worker, where `limited` says whether there is a limiter.
structure Runtime where
  workerID          : WorkerID
  queues            : List QueueName
  leaseTTL          : Duration
  heartbeatInterval : Duration
  baseRetryDelay    : Duration
  maxRetryDelay     : Duration
  limited           : Bool

-- The steps by which a procedure of the platform interacts with the rest of the world. Each call to
-- a store takes effect at once. The call `heartbeats` starts a heartbeat loop beside the procedure,
-- which ends after the given number of rounds.
inductive Call
  | now
  | heartbeats (r : Runtime) (job : Job) (leaseToken : Token) (policies : List RateLimitPolicy)
      (rounds : Nat)
  | broker (c : BrokerCall)
  | repo (c : RepoCall)
  | limiter (c : LimiterCall)

abbrev Call.Resp : Call → Type
  | now           => Time
  | heartbeats .. => Unit
  | broker c      => Except Error c.Resp
  | repo c        => Except Error c.Resp
  | limiter c     => Except Error c.Resp

abbrev Program :=
  Prog Call Call.Resp

def timeNow : Program Time :=
  Prog.perform Call.now

def broker (c : BrokerCall) : Program (Except Error c.Resp) :=
  Prog.perform (Call.broker c)

def repo (c : RepoCall) : Program (Except Error c.Resp) :=
  Prog.perform (Call.repo c)

def limiter (c : LimiterCall) : Program (Except Error c.Resp) :=
  Prog.perform (Call.limiter c)

-- The clock never runs backwards.
structure Clock where
  time : Nat → Time
  mono : Monotone time

structure World where
  broker   : RedisBroker
  clock    : Clock
  calls    : Nat
  redis    : Redis
  postgres : Postgres
  limits   : Limits

-- A clock which proceeds by a millisecond with each call.
def Clock.sample : Clock where
  time calls := .ofUnixMilli (1700000000000 + calls)
  mono       := fun _ _ h => by simpa [Time.ofUnixMilli] using h

namespace World

def sample : World where
  broker   := .sample
  clock    := .sample
  calls    := 0
  redis    := .empty
  postgres := .empty
  limits   := .empty

def now (w : World) : Time :=
  w.clock.time w.calls

-- The effect of a call that does not fail.
def effect (w : World) : (c : Call) → World × c.Resp
  | .now           => (w, w.now)
  | .heartbeats .. => (w, ())
  | .broker c      => let (redis, res) := w.broker.exec w.redis c; ({ w with redis }, res)
  | .repo c        => let (postgres, res) := w.postgres.exec c; ({ w with postgres }, res)
  | .limiter c     => let (limits, res) := w.limits.exec w.now c; ({ w with limits }, .ok res)

-- Each call takes time.
def exec (w : World) (c : Call) : World × c.Resp :=
  let (w', res) := w.effect c
  ({ w' with calls := w.calls + 1 }, res)

variable {w : World}

@[simp]
theorem exec_now : w.exec .now = ({ w with calls := w.calls + 1 }, w.now) :=
  rfl

@[simp]
theorem exec_heartbeats {r job leaseToken policies rounds} :
    w.exec (.heartbeats r job leaseToken policies rounds) = ({ w with calls := w.calls + 1 }, ()) :=
  rfl

@[simp]
theorem exec_broker {c : BrokerCall} : w.exec (.broker c) =
    ({ w with calls := w.calls + 1, redis := (w.broker.exec w.redis c).1 }, (w.broker.exec w.redis c).2) :=
  rfl

@[simp]
theorem exec_repo {c : RepoCall} : w.exec (.repo c) =
    ({ w with calls := w.calls + 1, postgres := (w.postgres.exec c).1 }, (w.postgres.exec c).2) :=
  rfl

@[simp]
theorem exec_limiter {c : LimiterCall} : w.exec (.limiter c) =
    ({ w with calls := w.calls + 1, limits := (w.limits.exec w.now c).1 }, .ok (w.limits.exec w.now c).2) :=
  rfl

end World

-- Time does not run backwards while a procedure runs.
theorem World.now_le_run {α : Type} (w : World) (p : Program α) : w.now ≤ (p.run World.exec w).1.now := by
  let Inv (x : World) : Prop := x.clock = w.clock ∧ w.calls ≤ x.calls
  have hs (x) (c : Call) (h : Inv x) : Inv (x.exec c).1 := by
    cases c <;> exact ⟨h.left, h.right.trans (Nat.le_succ _)⟩
  have ⟨hc, hn⟩ := Prog.run_preserves hs p (show Inv w from ⟨rfl, le_rfl⟩)
  rw [World.now, World.now, hc]
  exact w.clock.mono hn

section

variable {w : World}

@[simp]
theorem timeNow_exec : timeNow.run World.exec w = ({ w with calls := w.calls + 1 }, w.now) :=
  rfl

@[simp]
theorem broker_exec {c : BrokerCall} : (broker c).run World.exec w = w.exec (.broker c) :=
  rfl

@[simp]
theorem repo_exec {c : RepoCall} : (repo c).run World.exec w = w.exec (.repo c) :=
  rfl

end

-- A store may refuse a call, or execute it although its answer is lost.
inductive Fault
  | none
  | refused
  | lost
  deriving DecidableEq

-- The answer to a call that has failed. Reading the clock and starting a loop do not fail.
def Call.failure? : (c : Call) → Option c.Resp
  | now           => none
  | heartbeats .. => none
  | broker _      => some <| .error .unavailable
  | repo _        => some <| .error .unavailable
  | limiter _     => some <| .error .unavailable

namespace World

-- The faults are given for each call by its number.
def tryExec (faults : Nat → Fault) (w : World) (c : Call) : World × c.Resp :=
  match faults w.calls, c.failure? with
  | .refused, some res => ({ w with calls := w.calls + 1 }, res)
  | .lost,    some res => ((w.exec c).1, res)
  | _,        _        => w.exec c

end World

-- The methods of the broker that need the time or more than one call.
namespace Broker

def enqueue (job : Job) : Program (Except Error Unit) := do
  let now ← timeNow
  broker (.enqueue job now)

def dequeue (workerID : WorkerID) (queues : List QueueName) (leaseTTL : Duration) :
    Program (Except Error (Option LeasedJob)) := do
  let now ← timeNow
  match ← broker (.dequeue workerID queues leaseTTL now) with
  | .error e => return .error e
  | .ok none => return .ok none
  | .ok (some (jobID, leaseToken)) =>
    match ← broker (.loadJob jobID) with
    | .error e => return .error e
    | .ok job  => return .ok <| some { job := { job with leaseToken }, leaseToken }

def heartbeat (jobID : JobID) (leaseToken : Token) (leaseTTL : Duration) : Program (Except Error Bool) := do
  let now ← timeNow
  broker (.heartbeat jobID leaseToken leaseTTL now)

def requeueThrottled (job : Job) (leaseToken : Token) (retryAt : Time) (reason : String) :
    Program (Except Error Bool) := do
  let now ← timeNow
  broker (.requeueThrottled job leaseToken retryAt reason now)

def cancel (jobID : JobID) : Program (Except Error Unit) := do
  match ← broker (.loadJob jobID) with
  | .error e => return .error e
  | .ok job  =>
    let now ← timeNow
    match ← broker (.cancelLoaded jobID job now) with
    | .error e => return .error e
    | .ok ()   => return .ok ()

end Broker

-- Only jobs with an idempotency key have a record.
def updateIdempotencyOutcome (job : Job) (status : String) : Program Unit := do
  if job.idempotencyKey = "" then
    return ()
  else
    let now ← timeNow
    let _ ← repo (.updateIdempotencyOutcome job status now)
    return ()

end JobPlatform
