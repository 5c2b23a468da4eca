import JobPlatform.System.World

namespace JobPlatform

namespace Time

def padded (width n : Nat) : String :=
  let digits := toString n
  String.ofList (List.replicate (width - digits.length) '0') ++ digits

-- The time in UTC without fractions of a second. The date is counted in eras of 400 years, each of
-- which starts with a March.
def rfc3339 (t : Time) : String :=
  let seconds := t / 1000000000
  let days    := seconds / 86400 + 719468
  let clock   := (seconds % 86400).toNat
  let inEra   := (days % 146097).toNat
  let year    := (inEra - inEra / 1460 + inEra / 36524 - inEra / 146096) / 365
  let inYear  := inEra - (365 * year + year / 4 - year / 100)
  let march   := (5 * inYear + 2) / 153
  let day     := inYear - (153 * march + 2) / 5 + 1
  let month   := if march < 10 then march + 3 else march - 9
  let year    := days / 146097 * 400 + year + (if month ≤ 2 then 1 else 0)
  let sign    := if year < 0 then "-" else ""
  sign ++ padded 4 year.natAbs ++ "-" ++ padded 2 month ++ "-" ++ padded 2 day ++ "T" ++
    padded 2 (clock / 3600) ++ ":" ++ padded 2 (clock / 60 % 60) ++ ":" ++ padded 2 (clock % 60) ++ "Z"

example : rfc3339 (951827696 * Duration.second) = "2000-02-29T12:34:56Z" := by decide

end Time

structure Schedule where
  id             : String
  name           : String
  cronExpression : String
  queue          : QueueName
  type           : String
  payload        : String
  priority       : Int
  maxAttempts    : Int
  timeoutSeconds : Int
  enabled        : Bool
  timezone       : String
  nextRunAt      : Time
  lastRunAt      : Option Time
  createdAt      : Time
  updatedAt      : Time
  deriving DecidableEq

structure ScheduleRequest where
  name           : String
  cronExpression : String
  queue          : QueueName
  type           : String
  payload        : String
  priority       : Option Int
  maxAttempts    : Int
  timeoutSeconds : Int
  enabled        : Option Bool
  timezone       : String

-- The packages for time zones, cron expressions and UUIDs, which are not part of the platform.
structure CronPackages where
  Location      : Type
  utc           : Location
  loadLocation  : String → Except Error Location
  Spec          : Type
  parseStandard : String → Except Error Spec
  next          : Spec → Location → Time → Time
  newSHA1       : String → String

-- A slot of a schedule that was claimed, and the millisecond at which it was.
structure Claim where
  scheduleID : String
  slot       : Time
  claimedAt  : Int
  deriving DecidableEq

-- Each call is a single step. The claim is only passed on so that it can be seen what a job is for.
inductive CronCall
  | now
  | listDueSchedules (now : Time)
  | claimScheduleDispatch (scheduleID : String) (slot : Time) (ttl : Duration)
  | enqueueJob (claim : Claim) (req : JobRequest)
  | updateScheduleRun (scheduleID : String) (ranAt nextRun : Time)
  | upsertSchedule (schedule : Schedule)

abbrev CronCall.Resp : CronCall → Type
  | now                      => Time
  | listDueSchedules ..      => Except Error (List Schedule)
  | claimScheduleDispatch .. => Except Error (Option Claim)
  | enqueueJob ..            => Except Error Unit
  | updateScheduleRun ..     => Except Error Unit
  | upsertSchedule ..        => Except Error Unit

abbrev CronProgram :=
  Prog CronCall CronCall.Resp

namespace CronProgram

def now : CronProgram Time :=
  Prog.perform CronCall.now

def listDueSchedules (now : Time) : CronProgram (Except Error (List Schedule)) :=
  Prog.perform (CronCall.listDueSchedules now)

def claimScheduleDispatch (scheduleID : String) (slot : Time) (ttl : Duration) :
    CronProgram (Except Error (Option Claim)) :=
  Prog.perform (CronCall.claimScheduleDispatch scheduleID slot ttl)

def enqueueJob (claim : Claim) (req : JobRequest) : CronProgram (Except Error Unit) :=
  Prog.perform (CronCall.enqueueJob claim req)

def updateScheduleRun (scheduleID : String) (ranAt nextRun : Time) : CronProgram (Except Error Unit) :=
  Prog.perform (CronCall.updateScheduleRun scheduleID ranAt nextRun)

def upsertSchedule (schedule : Schedule) : CronProgram (Except Error Unit) :=
  Prog.perform (CronCall.upsertSchedule schedule)

end CronProgram

namespace CronPackages

variable (cron : CronPackages)

def location (timezone : String) : Except Error cron.Location :=
  if timezone ≠ "" then cron.loadLocation timezone else .ok cron.utc

def nextRun (schedule : Schedule) (now : Time) : Except Error Time := do
  let location ← cron.location schedule.timezone
  let spec ← cron.parseStandard schedule.cronExpression
  return cron.next spec location now

end CronPackages

def Schedule.request (schedule : Schedule) : JobRequest :=
  { JobRequest.plain schedule.type with
    queue          := schedule.queue
    payload        := schedule.payload
    priority       := some schedule.priority
    maxAttempts    := schedule.maxAttempts
    timeoutSeconds := schedule.timeoutSeconds
  }

namespace Scheduler

def dispatchTTL : Duration :=
  24 * 60 * Duration.minute

-- The loop body of `runDueSchedules`, whose errors are only logged.
def dispatch (cron : CronPackages) (now : Time) (schedule : Schedule) : CronProgram Unit := do
  match ← CronProgram.claimScheduleDispatch schedule.id schedule.nextRunAt dispatchTTL with
  | .error _          => return ()
  | .ok none          => return ()
  | .ok (some claim) =>
    match ← CronProgram.enqueueJob claim schedule.request with
    | .error _ => return ()
    | .ok ()   =>
      match cron.nextRun schedule now with
      | .error _    => return ()
      | .ok nextRun =>
        let _ ← CronProgram.updateScheduleRun schedule.id now nextRun
        return ()

def dispatchAll (cron : CronPackages) (now : Time) : List Schedule → CronProgram Unit
  | []               => return ()
  | schedule :: rest => do
    dispatch cron now schedule
    dispatchAll cron now rest

def runDueSchedules (cron : CronPackages) : CronProgram (Except Error Unit) := do
  let now ← CronProgram.now
  match ← CronProgram.listDueSchedules now with
  | .error e      => return .error e
  | .ok schedules =>
    dispatchAll cron now schedules
    return .ok ()

end Scheduler

-- The schedule that is stored for a request.
def ScheduleRequest.schedule (req : ScheduleRequest) (id : String) (nextRun now : Time) : Schedule where
  id             := id
  name           := req.name
  cronExpression := req.cronExpression
  queue          := if req.queue = "" then "default" else req.queue
  type           := req.type
  payload        := req.payload
  priority       := req.priority.getD 5
  maxAttempts    := if req.maxAttempts ≤ 0 then 5 else req.maxAttempts
  timeoutSeconds := req.timeoutSeconds
  enabled        := req.enabled.getD true
  timezone       := if req.timezone = "" then "UTC" else req.timezone
  nextRunAt      := nextRun
  lastRunAt      := none
  createdAt      := now
  updatedAt      := now

def upsertSchedule (cron : CronPackages) (req : ScheduleRequest) : CronProgram (Except Error Unit) := do
  if req.name = "" ∨ req.type = "" ∨ req.cronExpression = "" then
    return .error <| .invalid "name, type, and cronExpression are required"
  else
    match cron.location req.timezone with
    | .error e     => return .error e
    | .ok location =>
      match cron.parseStandard req.cronExpression with
      | .error e => return .error e
      | .ok spec =>
        let now ← CronProgram.now
        CronProgram.upsertSchedule <|
          req.schedule (cron.newSHA1 req.name) (cron.next spec location now) now

-- A call of `EnqueueJob` for a claimed slot, and whether the job was enqueued.
structure Dispatch extends Claim where
  calledAt : Int
  enqueued : Bool
  deriving DecidableEq

-- The table of schedules, and the dispatch keys with the milliseconds at which Redis deletes them. The
-- log records the calls of `EnqueueJob`.
structure Crontab where
  clock     : Clock
  calls     : Nat
  schedules : List Schedule
  keys      : String → Option Int
  log       : List Dispatch

namespace Crontab

def now (w : Crontab) : Time :=
  w.clock.time w.calls

def scheduleDispatchKey (scheduleID : String) (slot : Time) : String :=
  "scheduler:dispatch:" ++ scheduleID ++ ":" ++ slot.rfc3339

def live (w : Crontab) (key : String) : Bool :=
  (w.keys key).any (w.now.unixMilli < ·)

def listDueSchedules (w : Crontab) (now : Time) : List Schedule :=
  (w.schedules.filter fun s => s.enabled ∧ s.nextRunAt ≤ now.stored).insertionSort (·.nextRunAt ≤ ·.nextRunAt)

-- The key is set if it is not there.
def claimScheduleDispatch (w : Crontab) (scheduleID : String) (slot : Time) (ttl : Duration) :
    Crontab × Option Claim :=
  let key := scheduleDispatchKey scheduleID slot
  if w.live key then
    (w, none)
  else
    ({ w with keys := Function.update w.keys key (some (w.now.unixMilli + ttl.milliseconds)) },
      some { scheduleID, slot, claimedAt := w.now.unixMilli })

def logged (w : Crontab) (claim : Claim) (enqueued : Bool) : Crontab :=
  { w with log := w.log ++ [{ claim with calledAt := w.now.unixMilli, enqueued }] }

def updateScheduleRun (w : Crontab) (scheduleID : String) (ranAt nextRun : Time) : Crontab :=
  { w with
    schedules := w.schedules.map fun s =>
      if s.id = scheduleID
      then { s with lastRunAt := some ranAt.stored, nextRunAt := nextRun.stored, updatedAt := ranAt.stored }
      else s
  }

-- A schedule with the same name keeps its identifier.
def upsertSchedule (w : Crontab) (schedule : Schedule) : Crontab × Except Error Unit :=
  let row := { schedule with
    nextRunAt := schedule.nextRunAt.stored
    createdAt := schedule.createdAt.stored
    updatedAt := schedule.updatedAt.stored
  }
  if ¬[schedule.priority, schedule.maxAttempts, schedule.timeoutSeconds].all Postgres.isInt4 then
    (w, .error .numericOutOfRange)
  else if schedule.payload = "" then
    (w, .error .notNullViolation)
  else if w.schedules.any (·.name = schedule.name) then
    ({ w with
      schedules := w.schedules.map fun s =>
        if s.name = schedule.name
        then { row with id := s.id, lastRunAt := s.lastRunAt, createdAt := s.createdAt }
        else s
    }, .ok ())
  else if w.schedules.any (·.id = schedule.id) then
    (w, .error .uniqueViolation)
  else
    ({ w with schedules := w.schedules ++ [row] }, .ok ())

-- The effect of a call that does not fail. The requests which the enqueuer refuses are given.
def effect (accepts : JobRequest → Except Error Unit) (w : Crontab) : (c : CronCall) → Crontab × c.Resp
  | .now                  => (w, w.now)
  | .listDueSchedules now => (w, .ok (w.listDueSchedules now))
  | .claimScheduleDispatch scheduleID slot ttl =>
    let (w, claim) := w.claimScheduleDispatch scheduleID slot ttl
    (w, .ok claim)
  | .enqueueJob claim req => (w.logged claim (accepts req).isOk, accepts req)
  | .updateScheduleRun scheduleID ranAt nextRun => (w.updateScheduleRun scheduleID ranAt nextRun, .ok ())
  | .upsertSchedule schedule => w.upsertSchedule schedule

-- A call that fails may have had its effect.
def failed (accepts : JobRequest → Except Error Unit) (lost : Bool) (w : Crontab) : (c : CronCall) → Crontab × c.Resp
  | .now                  => (w, w.now)
  | .enqueueJob claim req => (w.logged claim (lost && (accepts req).isOk), .error .unavailable)
  | .listDueSchedules _   => (w, .error .unavailable)
  | .claimScheduleDispatch scheduleID slot ttl =>
    (if lost then (w.claimScheduleDispatch scheduleID slot ttl).1 else w, .error .unavailable)
  | .updateScheduleRun scheduleID ranAt nextRun =>
    (if lost then w.updateScheduleRun scheduleID ranAt nextRun else w, .error .unavailable)
  | .upsertSchedule schedule => (if lost then (w.upsertSchedule schedule).1 else w, .error .unavailable)

-- Each call takes time, and the faults are given for each call by its number.
def exec (accepts : JobRequest → Except Error Unit) (faults : Nat → Fault) (w : Crontab) (c : CronCall) :
    Crontab × c.Resp :=
  let (w', res) := match faults w.calls with
    | .none    => w.effect accepts c
    | .refused => w.failed accepts false c
    | .lost    => w.failed accepts true c
  ({ w' with calls := w.calls + 1 }, res)

end Crontab
end JobPlatform
