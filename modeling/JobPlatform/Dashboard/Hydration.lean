import JobPlatform.Dashboard.Overview
import JobPlatform.Dashboard.Reuse

namespace JobPlatform.Dashboard.Hydration

open Script Reuse

def malformed (label : String) : Exception :=
  .error (label ++ " response was malformed.")

def asRecord (value : Option Value) (label : String) : Completion Value :=
  match value with
  | some (.object members) => return .object members
  | _                      => throw (malformed label)

def asArray (value : Option Value) (label : String) : Completion (List Value) :=
  match value with
  | some (.array items) => return items
  | _                   => throw (malformed label)

def requireString (value : Option Value) (label : String) : Completion Unit :=
  match value with
  | some (.string (_ :: _)) => return ()
  | _                       => throw (malformed label)

def parseDashboardSnapshot (value : Value) : Completion Value := do
  let record ← asRecord (some value) "Dashboard snapshot"
  let _ ← asRecord (member "overview" record) "Dashboard overview"
  let _ ← asRecord (member "metrics" record) "Dashboard metrics"
  let _ ← asRecord (member "trend" record) "Dashboard trend"
  return value

def parseJob (value : Value) : Completion Value := do
  let record ← asRecord (some value) "Job"
  requireString (member "id" record) "Job id"
  requireString (member "type" record) "Job type"
  requireString (member "queue" record) "Job queue"
  requireString (member "state" record) "Job state"
  return value

def parseJobs (value : Value) : Completion (List Value) := do
  (← asArray (some value) "Jobs").mapM parseJob

def parseSchedule (value : Value) : Completion Value := do
  let record ← asRecord (some value) "Schedule"
  requireString (member "id" record) "Schedule id"
  requireString (member "name" record) "Schedule name"
  requireString (member "cronExpression" record) "Schedule cron expression"
  return value

def parseSchedules (value : Value) : Completion (List Value) := do
  (← asArray (some value) "Schedules").mapM parseSchedule

def parseWorkerStatus (value : Value) : Completion Value := do
  let record ← asRecord (some value) "Worker status"
  requireString (member "workerId" record) "Worker id"
  requireString (member "hostname" record) "Worker hostname"
  let _ ← asArray (member "queues" record) "Worker queues"
  return value

def parseWorkerStatuses (value : Value) : Completion (List Value) := do
  (← asArray (some value) "Workers").mapM parseWorkerStatus

-- What the four requests of a refresh are answered with
structure Responses where
  snapshot       : Value
  jobs           : Value
  schedules      : Value
  workerStatuses : Value

structure Parsed where
  snapshot       : Value
  jobs           : List Value
  schedules      : List Value
  workerStatuses : List Value

def Responses.parse (r : Responses) : Completion Parsed := do
  let snapshot ← parseDashboardSnapshot r.snapshot
  let jobs ← parseJobs r.jobs
  let schedules ← parseSchedules r.schedules
  let workerStatuses ← parseWorkerStatuses r.workerStatuses
  return { snapshot, jobs, schedules, workerStatuses }

-- The parts of a snapshot whose values have not been checked
structure Slices where
  overview      : Option Value
  trend         : Option Value
  workers       : Option Value
  deadLetters   : Option Value
  blockedJobs   : Option Value
  throttledJobs : Option Value
  rateLimits    : Option Value

def slices (snapshot : Value) : Slices where
  overview      := member "overview" snapshot
  trend         := member "trend" snapshot
  workers       := member "workers" snapshot
  deadLetters   := member "deadLetters" snapshot
  blockedJobs   := member "blockedJobs" snapshot
  throttledJobs := member "throttledJobs" snapshot
  rateLimits    := member "rateLimits" snapshot

structure Hydrated where
  snapshot       : Slices
  jobs           : List Value
  schedules      : List Value
  events         : List Item
  workerStatuses : List Value

def textIn (name : String) (v : Value) : Option Text :=
  textOf (member name v)

def inState (state : String) (job : Value) : Bool :=
  textIn "state" job = some (text state)

-- The items are asked for until one is found.
def someThrottled : List Value → Completion Bool
  | []            => return false
  | item :: items => do
    if truthy (← readMember "throttled" (some item)) then return true else someThrottled items

-- The numbers are left out, but not what is read and converted for them.
def summarizeJobs (jobs : List Value) (workers rateLimits : Option Value) : Completion Unit := do
  let _ ← readMember "length" workers
  let _ ← jobs.mapM fun job => do toPrimitive (← readMember "executionMs" (some job))
  let _ ← someThrottled (← elements rateLimits)

section

variable (engine : Engine)

def timeIn (name : String) (v : Value) : Completion (Option Int) := do
  getTime engine (← readMember name (some v))

def numberIn (name : String) (v : Value) : Completion (Option Primitive) := do
  toPrimitive (← readMember name (some v))

def sortJobs (jobs : List Value) : Completion (List Value) :=
  sortOn engine (timeIn engine "updatedAt") (fun left right => compareTimes right left) jobs

def sortSchedules (schedules : List Value) : Completion (List Value) :=
  sortOn engine (timeIn engine "nextRunAt") (fun left right => compareTimes left right) schedules

def sortDeadLetters (deadLetters : List Value) : Completion (List Value) :=
  sortOn engine (timeIn engine "failedAt") (fun left right => compareTimes right left) deadLetters

def sortWorkers (workers : List Value) : Completion (List Value) :=
  sortOn engine (numberIn "heartbeatAgeMs") engine.difference workers

-- The events have been made here, and have a text for the time.
def sortEvents (events : List Item) : List Item :=
  let time (event : Item) := (textMember "timestamp" event).bind fun s => (engine.time (.string s)).bind timeClip
  (engine.sort (fun left right => compareTimes (time right) (time left)) events).take 60

def reconcileConsoleData (data : Hydrated) : Completion Hydrated := do
  let sortedJobs ← sortJobs engine data.jobs
  let sortedSchedules ← sortSchedules engine data.schedules
  summarizeJobs sortedJobs data.snapshot.workers data.snapshot.rateLimits
  let _ ← readMember "lastUpdatedAt" data.snapshot.overview
  let deadLetters ← sortDeadLetters engine (← spread data.snapshot.deadLetters)
  let workers ← sortWorkers engine (← spread data.snapshot.workers)
  return { data with
    jobs      := sortedJobs
    schedules := sortedSchedules
    events    := sortEvents engine data.events
    snapshot  := { data.snapshot with
      blockedJobs   := some <| .array <| (sortedJobs.filter (inState "blocked")).take 16
      throttledJobs := some <| .array <| (sortedJobs.filter (inState "throttled")).take 16
      deadLetters   := some <| .array deadLetters
      workers       := some <| .array workers
    }
  }

def createConsoleDataFromApi (input : Parsed) (events : List Item) : Completion Hydrated :=
  reconcileConsoleData engine {
    snapshot       := slices input.snapshot
    jobs           := input.jobs
    schedules      := input.schedules
    events         := events
    workerStatuses := input.workerStatuses
  }

end

-- The key of each item is read.
def readKeys (getKey : Value → Completion (Option Value)) (next : Option Value) : Completion Unit := do
  let _ ← (← elements next).mapM getKey

def key (name : String) (item : Value) : Completion (Option Value) :=
  readMember name (some item)

def policyKey (item : Value) : Completion (Option Value) := do
  readMember "id" (← readMember "policy" (some item))

def seriesNames : List String :=
  ["throughput", "executionP95Ms", "queueLatencyP95Ms", "retryRate", "deadLetterRate"]

-- The items are new objects, which are numbered.
def tracked (values : List Value) : List Item :=
  values.zipIdx.map fun v => ⟨v.2, v.1⟩

def Hydrated.lists (data : Hydrated) : Collection → List Item
  | .jobs           => tracked data.jobs
  | .schedules      => tracked data.schedules
  | .events         => data.events
  | .workerStatuses => tracked data.workerStatuses

-- Of the snapshot the keys are read.
def stabilizeConsoleData (previous : Reuse.ConsoleData (List Item)) (next : Hydrated) :
    Completion (Collection → Reused) := do
  readKeys (key "id") (some <| .array next.jobs)
  readKeys (key "id") (some <| .array next.schedules)
  readKeys (key "workerId") (some <| .array next.workerStatuses)
  readKeys (key "workerId") next.snapshot.workers
  readKeys (key "jobId") next.snapshot.deadLetters
  readKeys (key "id") next.snapshot.blockedJobs
  readKeys (key "id") next.snapshot.throttledJobs
  readKeys policyKey next.snapshot.rateLimits
  let _ ← seriesNames.mapM fun series => do readKeys (key "timestamp") (← readMember series next.snapshot.trend)
  return fun collection => reuseList collection.getKey (previous.lists collection) (next.lists collection)

-- A refresh whose responses have been parsed
def refresh (engine : Engine) (live : Bool) (previous : Reuse.ConsoleData (List Item)) (input : Parsed) :
    Completion (Collection → Reused) := do
  let next ← createConsoleDataFromApi engine input (if live then previous.lists .events else [])
  stabilizeConsoleData previous next

-- What is known of values that have been parsed
structure Parsed.WellFormed (input : Parsed) : Prop where
  overview       : ∃ members, member "overview" input.snapshot = some (.object members)
  trend          : ∃ members, member "trend" input.snapshot = some (.object members)
  jobs           : ∀ job ∈ input.jobs, job ≠ .null
  schedules      : ∀ schedule ∈ input.schedules, schedule ≠ .null
  workerStatuses : ∀ worker ∈ input.workerStatuses, worker ≠ .null

section

variable {engine : Engine} {v v' item : Value} {o next : Option Value} {label name : String} {items values : List Value}
variable {α : Type} {input : Parsed}

theorem asRecord_eq_ok (h : asRecord o label = .ok v) : ∃ members, o = some (.object members) ∧ v = .object members := by
  unfold asRecord at h
  split at h
  case h_1 members => cases h; exact ⟨members, rfl, rfl⟩
  case h_2         => cases h

theorem asRecord_ne_null (h : asRecord (some v) label = .ok v') : v ≠ .null := by
  obtain ⟨_, hv, _⟩ := asRecord_eq_ok h
  cases hv
  nofun

theorem parseDashboardSnapshot_eq_ok (h : parseDashboardSnapshot v = .ok v') :
    v' = v ∧ (∃ members, member "overview" v = some (.object members)) ∧
      ∃ members, member "trend" v = some (.object members) := by
  obtain ⟨_, hr, h⟩ := bind_eq_ok.mp h
  obtain ⟨_, ho, h⟩ := bind_eq_ok.mp h
  obtain ⟨_, _, h⟩ := bind_eq_ok.mp h
  obtain ⟨_, ht, h⟩ := bind_eq_ok.mp h
  cases h
  obtain ⟨_, hv, rfl⟩ := asRecord_eq_ok hr
  cases hv
  obtain ⟨_, ho, _⟩ := asRecord_eq_ok ho
  obtain ⟨_, ht, _⟩ := asRecord_eq_ok ht
  exact ⟨rfl, ⟨_, ho⟩, ⟨_, ht⟩⟩

theorem parseJob_eq_ok (h : parseJob v = .ok v') : v' = v ∧ v ≠ .null := by
  obtain ⟨_, hr, h⟩ := bind_eq_ok.mp h
  obtain ⟨_, _, h⟩ := bind_eq_ok.mp h
  obtain ⟨_, _, h⟩ := bind_eq_ok.mp h
  obtain ⟨_, _, h⟩ := bind_eq_ok.mp h
  obtain ⟨_, _, h⟩ := bind_eq_ok.mp h
  cases h
  exact ⟨rfl, asRecord_ne_null hr⟩

theorem parseSchedule_eq_ok (h : parseSchedule v = .ok v') : v' = v ∧ v ≠ .null := by
  obtain ⟨_, hr, h⟩ := bind_eq_ok.mp h
  obtain ⟨_, _, h⟩ := bind_eq_ok.mp h
  obtain ⟨_, _, h⟩ := bind_eq_ok.mp h
  obtain ⟨_, _, h⟩ := bind_eq_ok.mp h
  cases h
  exact ⟨rfl, asRecord_ne_null hr⟩

theorem parseWorkerStatus_eq_ok (h : parseWorkerStatus v = .ok v') : v' = v ∧ v ≠ .null := by
  obtain ⟨_, hr, h⟩ := bind_eq_ok.mp h
  obtain ⟨_, _, h⟩ := bind_eq_ok.mp h
  obtain ⟨_, _, h⟩ := bind_eq_ok.mp h
  obtain ⟨_, _, h⟩ := bind_eq_ok.mp h
  cases h
  exact ⟨rfl, asRecord_ne_null hr⟩

theorem mapM_ne_null {parse : Value → Completion Value} (hp : ∀ {v v'}, parse v = .ok v' → v' = v ∧ v ≠ .null)
    (h : items.mapM parse = .ok values) : ∀ v ∈ values, v ≠ .null := by
  induction items generalizing values
  case nil             => cases h; nofun
  case cons v items hi =>
    obtain ⟨v', hv, values, hl, rfl⟩ := mapM_cons_eq_ok.mp h
    obtain ⟨rfl, hv⟩ := hp hv
    exact List.forall_mem_cons.mpr ⟨hv, hi hl⟩

theorem parse_wellFormed {r : Responses} (h : r.parse = .ok input) : input.WellFormed := by
  obtain ⟨snapshot, hs, h⟩ := bind_eq_ok.mp h
  obtain ⟨jobs, hj, h⟩ := bind_eq_ok.mp h
  obtain ⟨schedules, hc, h⟩ := bind_eq_ok.mp h
  obtain ⟨workerStatuses, hw, h⟩ := bind_eq_ok.mp h
  cases h
  obtain ⟨rfl, ho, ht⟩ := parseDashboardSnapshot_eq_ok hs
  obtain ⟨_, _, hj⟩ := bind_eq_ok.mp hj
  obtain ⟨_, _, hc⟩ := bind_eq_ok.mp hc
  obtain ⟨_, _, hw⟩ := bind_eq_ok.mp hw
  constructor
  case overview       => exact ho
  case trend          => exact ht
  case jobs           => exact mapM_ne_null parseJob_eq_ok hj
  case schedules      => exact mapM_ne_null parseSchedule_eq_ok hc
  case workerStatuses => exact mapM_ne_null parseWorkerStatus_eq_ok hw

theorem returns_timeIn (h : v ≠ .null) : Returns (timeIn engine name v) ↔ (member name v).all convertible := by
  rw [timeIn, readMember_of_ne_null h]
  exact returns_getTime

theorem returns_numberIn (h : v ≠ .null) : Returns (numberIn name v) ↔ (member name v).all convertible := by
  rw [numberIn, readMember_of_ne_null h]
  exact returns_toPrimitive

theorem returns_key : Returns (key name item) ↔ item ≠ .null := by
  simp [key, returns_readMember]

theorem returns_policyKey : Returns (policyKey item) ↔ member "policy" item ≠ none ∧ member "policy" item ≠ some .null := by
  by_cases h : item = .null
  case pos =>
    rw [h]
    exact iff_of_false not_returns_error (·.left rfl)
  case neg =>
    rw [policyKey, readMember_of_ne_null h]
    exact returns_readMember

theorem returns_readKeys {getKey : Value → Completion (Option Value)} :
    Returns (readKeys getKey next) ↔ ∃ items, next = some (.array items) ∧ ∀ item ∈ items, Returns (getKey item) := by
  refine returns_bind.trans <| exists_congr fun items => and_congr elements_eq_ok ?_
  rw [← returns_mapM]
  exact returns_bind_of_forall fun _ => returns_pure

theorem returns_readKeys_array {getKey : Value → Completion (Option Value)} :
    Returns (readKeys getKey (some (.array items))) ↔ ∀ item ∈ items, Returns (getKey item) := by
  rw [returns_readKeys]
  simp

-- It is enough for the reduction that no item is null.
theorem returns_someThrottled (h : ∀ item ∈ items, item ≠ .null) : Returns (someThrottled items) := by
  induction items
  case nil                => exact returns_pure
  case cons item items hi =>
    have ⟨hn, h⟩ := List.forall_mem_cons.mp h
    rw [someThrottled, readMember_of_ne_null hn]
    change Returns (if truthy (member "throttled" item) then _ else _)
    split
    case isTrue  => exact returns_pure
    case isFalse => exact hi h

theorem returns_summarizeJobs {jobs : List Value} {workers rateLimits : Option Value} (hj : ∀ job ∈ jobs, job ≠ .null) :
    Returns (summarizeJobs jobs workers rateLimits) ↔ (workers ≠ none ∧ workers ≠ some .null) ∧
      (∀ job ∈ jobs, (member "executionMs" job).all convertible) ∧
      ∃ items, rateLimits = some (.array items) ∧ Returns (someThrottled items) := by
  rw [summarizeJobs, returns_bind_const, returns_readMember, returns_bind_const, returns_mapM]
  refine and_congr_right' <| and_congr (forall₂_congr fun job h => returns_numberIn (hj job h)) ?_
  exact returns_bind.trans <| exists_congr fun _ => and_congr elements_eq_ok (returns_bind_of_forall fun _ => returns_pure)

end

-- A list whose items have a certain property that can be converted
structure Listed (name : String) (items : List Value) : Prop where
  ne_null : ∀ item ∈ items, item ≠ .null
  value   : 2 ≤ items.length → ∀ item ∈ items, (member name item).all convertible

-- What the parsers should have checked, too
structure Loadable (input : Parsed) : Prop where
  executionMs : ∀ job ∈ input.jobs, (member "executionMs" job).all convertible
  updatedAt   : 2 ≤ input.jobs.length → ∀ job ∈ input.jobs, (member "updatedAt" job).all convertible
  nextRunAt   : 2 ≤ input.schedules.length → ∀ schedule ∈ input.schedules, (member "nextRunAt" schedule).all convertible
  workers     : ∃ workers, spread (member "workers" input.snapshot) = .ok workers ∧ Listed "heartbeatAgeMs" workers
  deadLetters : ∃ deadLetters, spread (member "deadLetters" input.snapshot) = .ok deadLetters ∧
    Listed "failedAt" deadLetters
  rateLimits  : ∃ rateLimits, member "rateLimits" input.snapshot = some (.array rateLimits) ∧
    ∀ item ∈ rateLimits, member "policy" item ≠ none ∧ member "policy" item ≠ some .null
  trend       : ∀ name ∈ seriesNames, ∃ points,
    (member "trend" input.snapshot).bind (member name) = some (.array points) ∧ ∀ point ∈ points, point ≠ .null

-- What comes out of reconcileConsoleData
structure Reconciled (engine : Engine) (data next : Hydrated) : Prop where
  jobs           : sortJobs engine data.jobs = .ok next.jobs
  schedules      : sortSchedules engine data.schedules = .ok next.schedules
  workerStatuses : next.workerStatuses = data.workerStatuses
  summary        : Returns (summarizeJobs next.jobs data.snapshot.workers data.snapshot.rateLimits)
  trend          : next.snapshot.trend = data.snapshot.trend
  workers        : ∃ workers sorted, spread data.snapshot.workers = .ok workers ∧
    sortWorkers engine workers = .ok sorted ∧ next.snapshot.workers = some (.array sorted)
  deadLetters    : ∃ deadLetters sorted, spread data.snapshot.deadLetters = .ok deadLetters ∧
    sortDeadLetters engine deadLetters = .ok sorted ∧ next.snapshot.deadLetters = some (.array sorted)
  blockedJobs    : ∃ jobs ⊆ next.jobs, next.snapshot.blockedJobs = some (.array jobs)
  throttledJobs  : ∃ jobs ⊆ next.jobs, next.snapshot.throttledJobs = some (.array jobs)
  rateLimits     : next.snapshot.rateLimits = data.snapshot.rateLimits

section

variable {engine : Engine} {data next : Hydrated} {input : Parsed} {previous : Reuse.ConsoleData (List Item)}
variable {name : String} {items sorted : List Value}

theorem reconciled (h : reconcileConsoleData engine data = .ok next) : Reconciled engine data next := by
  obtain ⟨jobs, hj, h⟩ := bind_eq_ok.mp h
  obtain ⟨schedules, hs, h⟩ := bind_eq_ok.mp h
  obtain ⟨_, hr, h⟩ := bind_eq_ok.mp h
  obtain ⟨_, _, h⟩ := bind_eq_ok.mp h
  obtain ⟨deadLetters, hd, h⟩ := bind_eq_ok.mp h
  obtain ⟨sortedDeadLetters, hd', h⟩ := bind_eq_ok.mp h
  obtain ⟨workers, hw, h⟩ := bind_eq_ok.mp h
  obtain ⟨sortedWorkers, hw', h⟩ := bind_eq_ok.mp h
  cases h
  have ht (state : String) : (jobs.filter (inState state)).take 16 ⊆ jobs :=
    fun _ h => List.mem_of_mem_filter <| List.mem_of_mem_take h
  constructor
  case jobs           => exact hj
  case schedules      => exact hs
  case workerStatuses => rfl
  case summary        => exact ⟨_, hr⟩
  case trend          => rfl
  case workers        => exact ⟨_, _, hw, hw', rfl⟩
  case deadLetters    => exact ⟨_, _, hd, hd', rfl⟩
  case blockedJobs    => exact ⟨_, ht "blocked", rfl⟩
  case throttledJobs  => exact ⟨_, ht "throttled", rfl⟩
  case rateLimits     => rfl

theorem returns_reconcileConsoleData (hj : Returns (sortJobs engine data.jobs))
    (hs : Returns (sortSchedules engine data.schedules))
    (hr : ∀ jobs, sortJobs engine data.jobs = .ok jobs →
      Returns (summarizeJobs jobs data.snapshot.workers data.snapshot.rateLimits))
    (ho : Returns (readMember "lastUpdatedAt" data.snapshot.overview))
    (hd : ∃ deadLetters, spread data.snapshot.deadLetters = .ok deadLetters ∧ Returns (sortDeadLetters engine deadLetters))
    (hw : ∃ workers, spread data.snapshot.workers = .ok workers ∧ Returns (sortWorkers engine workers)) :
    Returns (reconcileConsoleData engine data) := by
  obtain ⟨jobs, hj⟩ := hj
  obtain ⟨_, hs⟩ := hs
  obtain ⟨_, hr⟩ := hr jobs hj
  obtain ⟨_, ho⟩ := ho
  obtain ⟨_, hd, _, hd'⟩ := hd
  obtain ⟨_, hw, _, hw'⟩ := hw
  refine returns_bind.mpr ⟨_, hj, returns_bind.mpr ⟨_, hs, returns_bind.mpr ⟨_, hr, returns_bind.mpr ⟨_, ho, ?_⟩⟩⟩⟩
  refine returns_bind.mpr ⟨_, hd, returns_bind.mpr ⟨_, hd', ?_⟩⟩
  exact returns_bind.mpr ⟨_, hw, returns_bind.mpr ⟨_, hw', returns_pure⟩⟩

theorem returns_sortOn_in {compare : Option Int → Option Int → Ordering} (h : ∀ item ∈ items, item ≠ .null) :
    Returns (sortOn engine (timeIn engine name) compare items) ↔
      (2 ≤ items.length → ∀ item ∈ items, (member name item).all convertible) := by
  rw [returns_sortOn]
  exact imp_congr_right fun _ => forall₂_congr fun item hi => returns_timeIn (h item hi)

theorem returns_sortWorkers (h : ∀ item ∈ items, item ≠ .null) : Returns (sortWorkers engine items) ↔
    (2 ≤ items.length → ∀ item ∈ items, (member "heartbeatAgeMs" item).all convertible) := by
  rw [sortWorkers, returns_sortOn]
  exact imp_congr_right fun _ => forall₂_congr fun item hi => returns_numberIn (h item hi)

theorem returns_stabilizeConsoleData : Returns (stabilizeConsoleData previous next) ↔
    (∀ job ∈ next.jobs, job ≠ .null) ∧ (∀ schedule ∈ next.schedules, schedule ≠ .null) ∧
    (∀ worker ∈ next.workerStatuses, worker ≠ .null) ∧
    Returns (readKeys (key "workerId") next.snapshot.workers) ∧
    Returns (readKeys (key "jobId") next.snapshot.deadLetters) ∧
    Returns (readKeys (key "id") next.snapshot.blockedJobs) ∧
    Returns (readKeys (key "id") next.snapshot.throttledJobs) ∧
    Returns (readKeys policyKey next.snapshot.rateLimits) ∧
    ∀ name ∈ seriesNames, Returns (do readKeys (key "timestamp") (← readMember name next.snapshot.trend)) := by
  have hk {name : String} {items : List Value} :
      Returns (readKeys (key name) (some (.array items))) ↔ ∀ item ∈ items, item ≠ .null :=
    returns_readKeys_array.trans <| forall₂_congr fun _ _ => returns_key
  simp only [stabilizeConsoleData, returns_bind_const, returns_mapM, returns_pure, and_true, hk]

theorem returns_readSeries {trend : List (Text × Value)} :
    Returns (do readKeys (key "timestamp") (← readMember name (some (.object trend)))) ↔
      ∃ points, (some (Value.object trend)).bind (member name) = some (.array points) ∧
        ∀ point ∈ points, point ≠ .null := by
  change Returns (readKeys (key "timestamp") (member name (.object trend))) ↔ _
  rw [returns_readKeys]
  exact exists_congr fun _ => and_congr_right' <| forall₂_congr fun _ _ => returns_key

-- What is loaded has passed the checks, and what passes them is loaded.
theorem loadable_of_reconciled {events : List Item} (hw : input.WellFormed)
    (hr : Reconciled engine ⟨slices input.snapshot, input.jobs, input.schedules, events, input.workerStatuses⟩ next)
    (hs : Returns (stabilizeConsoleData previous next)) : Loadable input := by
  have ⟨hj, _, _, hk, hd, _, _, hp, ht⟩ := returns_stabilizeConsoleData.mp hs
  have ⟨_, hm, _⟩ := (returns_summarizeJobs hj).mp hr.summary
  have hjobs : next.jobs.Perm input.jobs := sortOn_perm hr.jobs
  constructor
  case executionMs => exact fun job h => hm job (hjobs.symm.subset h)
  case updatedAt   => exact (returns_sortOn_in hw.jobs).mp ⟨_, hr.jobs⟩
  case nextRunAt   => exact (returns_sortOn_in hw.schedules).mp ⟨_, hr.schedules⟩
  case workers     =>
    obtain ⟨workers, sorted, hw, hs, he⟩ := hr.workers
    rw [he, returns_readKeys_array] at hk
    have hn : ∀ item ∈ workers, item ≠ .null := fun item hi => returns_key.mp <| hk item <| (sortOn_perm hs).symm.subset hi
    exact ⟨workers, hw, hn, (returns_sortWorkers hn).mp ⟨_, hs⟩⟩
  case deadLetters =>
    obtain ⟨deadLetters, sorted, hw, hs, he⟩ := hr.deadLetters
    rw [he, returns_readKeys_array] at hd
    have hn : ∀ item ∈ deadLetters, item ≠ .null :=
      fun item hi => returns_key.mp <| hd item <| (sortOn_perm hs).symm.subset hi
    exact ⟨deadLetters, hw, hn, (returns_sortOn_in hn).mp ⟨_, hs⟩⟩
  case rateLimits  =>
    rw [hr.rateLimits, returns_readKeys] at hp
    obtain ⟨items, he, hi⟩ := hp
    exact ⟨items, he, fun item h => returns_policyKey.mp (hi item h)⟩
  case trend       =>
    obtain ⟨trend, he⟩ := hw.trend
    intro name hn
    have hn := ht name hn
    rw [hr.trend] at hn
    dsimp only [slices] at hn
    rw [he] at hn ⊢
    exact returns_readSeries.mp hn

theorem spread_ne_none {o : Option Value} (h : spread o = .ok items) : o ≠ none ∧ o ≠ some .null := by
  constructor
  all_goals
    rintro rfl
    cases h

theorem ne_null_of_policy {item : Value} (h : member "policy" item ≠ none) : item ≠ .null := by
  rintro rfl
  exact h rfl

theorem returns_reconcile_of_loadable {events : List Item} (hw : input.WellFormed) (h : Loadable input) :
    Returns (reconcileConsoleData engine
      ⟨slices input.snapshot, input.jobs, input.schedules, events, input.workerStatuses⟩) := by
  obtain ⟨workers, hs, hl⟩ := h.workers
  obtain ⟨deadLetters, hs', hl'⟩ := h.deadLetters
  obtain ⟨rateLimits, hr, hp⟩ := h.rateLimits
  obtain ⟨overview, ho⟩ := hw.overview
  apply returns_reconcileConsoleData
  case hj => exact (returns_sortOn_in hw.jobs).mpr h.updatedAt
  case hs => exact (returns_sortOn_in hw.schedules).mpr h.nextRunAt
  case hr =>
    intro jobs hj
    have hjobs : jobs.Perm input.jobs := sortOn_perm hj
    refine (returns_summarizeJobs fun job hi => hw.jobs job (hjobs.subset hi)).mpr ?_
    refine ⟨spread_ne_none hs, ?_, rateLimits, hr, ?_⟩
    · exact fun job hi => h.executionMs job (hjobs.subset hi)
    · exact returns_someThrottled fun item hi => ne_null_of_policy (hp item hi).left
  case ho =>
    dsimp only [slices]
    rw [ho]
    exact returns_readMember.mpr ⟨nofun, nofun⟩
  case hd => exact ⟨deadLetters, hs', (returns_sortOn_in hl'.ne_null).mpr hl'.value⟩
  case hw => exact ⟨workers, hs, (returns_sortWorkers hl.ne_null).mpr hl.value⟩

theorem returns_stabilize_of_loadable {events : List Item} (hw : input.WellFormed) (h : Loadable input)
    (hr : Reconciled engine ⟨slices input.snapshot, input.jobs, input.schedules, events, input.workerStatuses⟩ next) :
    Returns (stabilizeConsoleData previous next) := by
  have hjobs : ∀ job ∈ next.jobs, job ≠ .null := fun job hi => hw.jobs job <| (sortOn_perm hr.jobs).subset hi
  have hk {items : List Value} {name : String} (h : ∀ item ∈ items, item ≠ .null) :
      Returns (readKeys (key name) (some (.array items))) :=
    returns_readKeys_array.mpr fun item hi => returns_key.mpr (h item hi)
  apply returns_stabilizeConsoleData.mpr
  refine ⟨hjobs, fun schedule hi => hw.schedules schedule <| (sortOn_perm hr.schedules).subset hi,
    hr.workerStatuses.symm ▸ hw.workerStatuses, ?_, ?_, ?_, ?_, ?_, ?_⟩
  case refine_1 =>
    obtain ⟨workers, hs, hl⟩ := h.workers
    obtain ⟨workers', sorted, hs', hsort, he⟩ := hr.workers
    cases hs.symm.trans hs'
    rw [he]
    exact hk fun item hi => hl.ne_null item <| (sortOn_perm hsort).subset hi
  case refine_2 =>
    obtain ⟨deadLetters, hs, hl⟩ := h.deadLetters
    obtain ⟨deadLetters', sorted, hs', hsort, he⟩ := hr.deadLetters
    cases hs.symm.trans hs'
    rw [he]
    exact hk fun item hi => hl.ne_null item <| (sortOn_perm hsort).subset hi
  case refine_3 =>
    obtain ⟨jobs, hj, he⟩ := hr.blockedJobs
    rw [he]
    exact hk fun job hi => hjobs job (hj hi)
  case refine_4 =>
    obtain ⟨jobs, hj, he⟩ := hr.throttledJobs
    rw [he]
    exact hk fun job hi => hjobs job (hj hi)
  case refine_5 =>
    obtain ⟨rateLimits, he, hp⟩ := h.rateLimits
    rw [hr.rateLimits, returns_readKeys]
    exact ⟨rateLimits, he, fun item hi => returns_policyKey.mpr (hp item hi)⟩
  case refine_6 =>
    obtain ⟨trend, he⟩ := hw.trend
    intro name hn
    have hn := h.trend name hn
    rw [hr.trend]
    dsimp only [slices]
    rw [he] at hn ⊢
    exact returns_readSeries.mpr hn

theorem returns_refresh {live : Bool} (hw : input.WellFormed) :
    Returns (refresh engine live previous input) ↔ Loadable input := by
  constructor
  case mp  =>
    intro h
    obtain ⟨next, hn, hs⟩ := returns_bind.mp h
    exact loadable_of_reconciled hw (reconciled hn) hs
  case mpr =>
    intro h
    obtain ⟨next, hn⟩ := returns_reconcile_of_loadable hw h
    exact returns_bind.mpr ⟨next, hn, returns_stabilize_of_loadable hw h (reconciled hn)⟩

theorem stabilizeConsoleData_eq_ok {lists : Collection → Reused} (h : stabilizeConsoleData previous next = .ok lists) :
    lists = fun collection => reuseList collection.getKey (previous.lists collection) (next.lists collection) := by
  iterate 9 obtain ⟨_, _, h⟩ := bind_eq_ok.mp h
  cases h
  rfl

-- The jobs that are shown are the received ones, put in order and then stabilized.
theorem refresh_jobs {live : Bool} {lists : Collection → Reused} (h : refresh engine live previous input = .ok lists) :
    ∃ jobs, sortJobs engine input.jobs = .ok jobs ∧
      lists .jobs = reuseList (textMember "id") (previous.lists .jobs) (tracked jobs) := by
  obtain ⟨next, hn, hs⟩ := bind_eq_ok.mp h
  refine ⟨next.jobs, (reconciled hn).jobs, ?_⟩
  rw [stabilizeConsoleData_eq_ok hs]
  rfl

end

end JobPlatform.Dashboard.Hydration
