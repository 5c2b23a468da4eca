import JobPlatform.Dashboard.Models
import JobPlatform.Library.Newest

namespace JobPlatform.Dashboard

def queues : List String :=
  ["critical", "default", "low"]

-- The names of what every object inherits, without `__proto__`.
def inherited : List String := [
  "constructor", "hasOwnProperty", "isPrototypeOf", "propertyIsEnumerable", "toLocaleString", "toString", "valueOf",
  "__defineGetter__", "__defineSetter__", "__lookupGetter__", "__lookupSetter__"
]

def waits (state : JobState) : Bool :=
  state ∈ [.queued, .retrying, .scheduled]

def delayed (state : JobState) : Bool :=
  state ∈ [.scheduled, .retrying]

structure Summary where
  totalJobs      : Nat
  jobs           : JobState → Nat
  queueLengths   : String → Option (Option Nat)
  averageExecMs  : Number
  activeWorkers  : Nat
  delayedBacklog : Nat

-- The mean of the execution times, in the order of the jobs.
def averageExecMs (jobs : List Job) : Number :=
  let completed := jobs.filter fun job => (Number.finite 0).lt job.executionMs
  if 0 < completed.length then
    (completed.foldl (fun total job => Number.add total job.executionMs) (.finite 0)).div (.finite completed.length)
  else
    .finite 0

-- What is inherited is no number, and a sum with it is text.
def addLength (queue : String) (n : Nat) : Option (Option Nat) → Option Nat
  | some length => length.map (· + n)
  | none        => if queue ∈ inherited then none else some n

-- An assignment to `__proto__` does not add a property.
def Summary.count (s : Summary) (job : Job) : Summary where
  totalJobs      := s.totalJobs
  jobs           := Function.update s.jobs job.state (s.jobs job.state + 1)
  queueLengths   :=
    if job.queue = "__proto__" then
      s.queueLengths
    else
      Function.update s.queueLengths job.queue <|
        some <| addLength job.queue (if waits job.state then 1 else 0) (s.queueLengths job.queue)
  averageExecMs  := s.averageExecMs
  activeWorkers  := s.activeWorkers
  delayedBacklog := s.delayedBacklog + if delayed job.state then 1 else 0

def initialSummary (jobs : List Job) (workers : List WorkerLeaseHealth) : Summary where
  totalJobs      := jobs.length
  jobs _         := 0
  queueLengths q := if q ∈ queues then some (some 0) else none
  averageExecMs  := averageExecMs jobs
  activeWorkers  := workers.length
  delayedBacklog := 0

def summarizeJobs (jobs : List Job) (workers : List WorkerLeaseHealth) (rateLimits : List RateLimitStatus) : Summary :=
  let summary := jobs.foldl Summary.count (initialSummary jobs workers)
  if rateLimits.any (·.throttled) then
    { summary with
      jobs := Function.update summary.jobs .throttled <|
        max (summary.jobs .throttled) (jobs.filter (·.state = .throttled)).length
    }
  else
    summary

-- Newer jobs and dead letters come first, later schedules and older heartbeats last.
def reconcileConsoleData (data : ConsoleData) (now : String) : ConsoleData :=
  let sortedJobs := Newest.sort (·.updatedAt) data.jobs
  let sortedSchedules := data.schedules.insertionSort fun left right => left.nextRunAt ≤ right.nextRunAt
  let summary := summarizeJobs sortedJobs data.snapshot.workers data.snapshot.rateLimits
  let lastUpdatedAt :=
    if data.snapshot.overview.lastUpdatedAt ≠ "" then data.snapshot.overview.lastUpdatedAt
    else if data.lastHydratedAt ≠ "" then data.lastHydratedAt
    else now
  { data with
    jobs      := sortedJobs
    schedules := sortedSchedules
    snapshot  := { data.snapshot with
      overview      := {
        lastUpdatedAt
        totalJobs      := .finite summary.totalJobs
        jobs state     := .finite (summary.jobs state)
        queueLengths q := (summary.queueLengths q).map fun length => length.elim .text fun n => .number (.finite n)
        averageExecMs  := summary.averageExecMs
        activeWorkers  := .finite summary.activeWorkers
        delayedBacklog := .finite summary.delayedBacklog
      }
      blockedJobs   := (sortedJobs.filter (·.state = .blocked)).take 16
      throttledJobs := (sortedJobs.filter (·.state = .throttled)).take 16
      deadLetters   := Newest.sort (·.failedAt) data.snapshot.deadLetters
      workers       := data.snapshot.workers.insertionSort fun left right =>
        ¬right.heartbeatAgeMs.lt left.heartbeatAgeMs
    }
  }

def createConsoleDataFromApi (snapshot : DashboardSnapshot) (jobs : List Job) (schedules : List Schedule)
    (now : String) : ConsoleData :=
  reconcileConsoleData { snapshot, jobs, schedules, lastHydratedAt := now } now

-- The numbers of the server are shown, and so are its jobs.
structure Keeps (server shown : DashboardSnapshot) : Prop where
  totalJobs      : shown.overview.totalJobs = server.overview.totalJobs
  jobs           : shown.overview.jobs = server.overview.jobs
  queueLengths   : shown.overview.queueLengths = server.overview.queueLengths
  averageExecMs  : shown.overview.averageExecMs = server.overview.averageExecMs
  activeWorkers  : shown.overview.activeWorkers = server.overview.activeWorkers
  delayedBacklog : shown.overview.delayedBacklog = server.overview.delayedBacklog
  blockedJobs    : ∀ job ∈ server.blockedJobs, ∃ job' ∈ shown.blockedJobs, job'.id = job.id
  throttledJobs  : ∀ job ∈ server.throttledJobs, ∃ job' ∈ shown.throttledJobs, job'.id = job.id

-- The length that a list of jobs gives to a queue.
def queueLength (jobs : List Job) (queue : String) : Option QueueLength :=
  if queue = "__proto__" ∨ queue ∉ queues ∧ ∀ job ∈ jobs, job.queue ≠ queue then none
  else if queue ∈ inherited then some .text
  else some <| .number <| .finite (jobs.countP fun job => job.queue = queue ∧ waits job.state)

-- The numbers of the server are those of the list of jobs, and its jobs are among the newest ones of the list.
structure Consistent (server : DashboardSnapshot) (listed : List Job) : Prop where
  totalJobs      : server.overview.totalJobs = .finite listed.length
  jobs           : ∀ state, server.overview.jobs state = .finite (listed.countP (·.state = state))
  queueLengths   : ∀ queue, server.overview.queueLengths queue = queueLength listed queue
  averageExecMs  : server.overview.averageExecMs = averageExecMs (Newest.sort (·.updatedAt) listed)
  activeWorkers  : server.overview.activeWorkers = .finite server.workers.length
  delayedBacklog : server.overview.delayedBacklog = .finite (listed.countP (delayed ·.state))
  blockedJobs    : ∀ job ∈ server.blockedJobs,
    ∃ job' ∈ Newest.newest (·.updatedAt) 16 (listed.filter (·.state = .blocked)), job'.id = job.id
  throttledJobs  : ∀ job ∈ server.throttledJobs,
    ∃ job' ∈ Newest.newest (·.updatedAt) 16 (listed.filter (·.state = .throttled)), job'.id = job.id

section

variable {s : Summary} {jobs listed : List Job} {workers : List WorkerLeaseHealth} {rateLimits : List RateLimitStatus}
variable {schedules : List Schedule} {server : DashboardSnapshot} {state : JobState} {queue now : String} {m n : Nat}

theorem addLength_addLength (x : Option (Option Nat)) :
    addLength queue n (some (addLength queue m x)) = addLength queue (m + n) x := by
  cases x
  case some x => cases x <;> simp [addLength, Nat.add_assoc]
  case none   => simp only [addLength]; split <;> rfl

-- What no job of a list changes is the same after all of them have been counted.
theorem foldl_unchanged {α : Type} {f : Summary → α} (h : ∀ job ∈ jobs, ∀ s : Summary, f (s.count job) = f s) :
    f (jobs.foldl Summary.count s) = f s := by
  induction jobs generalizing s
  case nil              => rfl
  case cons job jobs hi =>
    have ⟨hj, h⟩ := List.forall_mem_cons.mp h
    rw [List.foldl_cons, hi h, hj]

theorem foldl_jobs : (jobs.foldl Summary.count s).jobs state = s.jobs state + jobs.countP (·.state = state) := by
  induction jobs generalizing s
  case nil              => rfl
  case cons job jobs hi =>
    rw [List.foldl_cons, hi, List.countP_cons]
    by_cases h : job.state = state
    case pos => subst h; simp [Summary.count]; omega
    case neg => simp [Summary.count, h, Ne.symm h]

theorem foldl_delayedBacklog :
    (jobs.foldl Summary.count s).delayedBacklog = s.delayedBacklog + jobs.countP (delayed ·.state) := by
  induction jobs generalizing s
  case nil              => rfl
  case cons job jobs hi =>
    rw [List.foldl_cons, hi, List.countP_cons]
    simp only [Summary.count]
    omega

theorem count_queueLengths_self {job : Job} (h : job.queue ≠ "__proto__") :
    (s.count job).queueLengths job.queue =
      some (addLength job.queue (if waits job.state then 1 else 0) (s.queueLengths job.queue)) := by
  simp [Summary.count, h]

theorem count_queueLengths_ne {job : Job} (h : job.queue ≠ queue) :
    (s.count job).queueLengths queue = s.queueLengths queue := by
  unfold Summary.count
  dsimp only
  split
  case isTrue  => rfl
  case isFalse => exact Function.update_of_ne h.symm _ _

theorem foldl_queueLengths_proto :
    (jobs.foldl Summary.count s).queueLengths "__proto__" = s.queueLengths "__proto__" := by
  refine foldl_unchanged (f := (·.queueLengths "__proto__")) fun job _ s => ?_
  by_cases h : job.queue = "__proto__"
  case pos => simp [Summary.count, h]
  case neg => exact count_queueLengths_ne h

theorem foldl_queueLengths_ne (h : ∀ job ∈ jobs, job.queue ≠ queue) :
    (jobs.foldl Summary.count s).queueLengths queue = s.queueLengths queue :=
  foldl_unchanged (f := (·.queueLengths queue)) fun job hj _ => count_queueLengths_ne (h job hj)

theorem countP_queue_cons {job : Job} (h : job.queue = queue) :
    (job :: jobs).countP (fun job => job.queue = queue ∧ waits job.state) =
      (if waits job.state then 1 else 0) + jobs.countP fun job => job.queue = queue ∧ waits job.state := by
  rw [List.countP_cons, Nat.add_comm]
  simp [h]

theorem countP_queue_eq_zero (h : ∀ job ∈ jobs, job.queue ≠ queue) :
    (jobs.countP fun job => job.queue = queue ∧ waits job.state) = 0 :=
  List.countP_eq_zero.mpr fun job hj => by simp [h job hj]

theorem foldl_queueLengths (hq : queue ≠ "__proto__") (h : ∃ job ∈ jobs, job.queue = queue) :
    (jobs.foldl Summary.count s).queueLengths queue = some
      (addLength queue (jobs.countP fun job => job.queue = queue ∧ waits job.state) (s.queueLengths queue)) := by
  induction jobs generalizing s
  case nil              => simp at h
  case cons job jobs hi =>
    rw [List.foldl_cons]
    by_cases hr : ∃ job ∈ jobs, job.queue = queue
    case pos =>
      rw [hi hr]
      by_cases hj : job.queue = queue
      case pos => rw [countP_queue_cons hj, ← hj, count_queueLengths_self (hj ▸ hq), addLength_addLength]
      case neg => rw [count_queueLengths_ne hj, List.countP_cons_of_neg (by simp [hj])]
    case neg =>
      have hn : ∀ job ∈ jobs, job.queue ≠ queue := by simpa using hr
      have hj : job.queue = queue := by simpa [hr] using h
      rw [foldl_queueLengths_ne hn, countP_queue_cons hj, countP_queue_eq_zero hn, ← hj,
        count_queueLengths_self (hj ▸ hq), Nat.add_zero]

theorem summarizeJobs_totalJobs : (summarizeJobs jobs workers rateLimits).totalJobs = jobs.length := by
  rw [summarizeJobs, apply_ite Summary.totalJobs, ite_self]
  exact foldl_unchanged (f := (·.totalJobs)) fun _ _ _ => rfl

theorem summarizeJobs_averageExecMs : (summarizeJobs jobs workers rateLimits).averageExecMs = averageExecMs jobs := by
  rw [summarizeJobs, apply_ite Summary.averageExecMs, ite_self]
  exact foldl_unchanged (f := (·.averageExecMs)) fun _ _ _ => rfl

theorem summarizeJobs_activeWorkers : (summarizeJobs jobs workers rateLimits).activeWorkers = workers.length := by
  rw [summarizeJobs, apply_ite Summary.activeWorkers, ite_self]
  exact foldl_unchanged (f := (·.activeWorkers)) fun _ _ _ => rfl

theorem summarizeJobs_delayedBacklog :
    (summarizeJobs jobs workers rateLimits).delayedBacklog = jobs.countP (delayed ·.state) := by
  rw [summarizeJobs, apply_ite Summary.delayedBacklog, ite_self, foldl_delayedBacklog]
  exact Nat.zero_add _

-- The second count of the throttled jobs agrees with the first one.
theorem summarizeJobs_jobs : (summarizeJobs jobs workers rateLimits).jobs state = jobs.countP (·.state = state) := by
  have hf (state : JobState) :
      (jobs.foldl Summary.count (initialSummary jobs workers)).jobs state = jobs.countP (·.state = state) :=
    foldl_jobs.trans (Nat.zero_add _)
  unfold summarizeJobs
  dsimp only
  split
  case isFalse => exact hf state
  case isTrue  =>
    dsimp only
    by_cases h : state = .throttled
    case pos => rw [h, Function.update_self, hf, ← List.countP_eq_length_filter, max_self]
    case neg => rw [Function.update_of_ne h, hf]

theorem not_inherited : ∀ queue ∈ queues, queue ∉ inherited := by
  decide

theorem summarizeJobs_queueLengths :
    ((summarizeJobs jobs workers rateLimits).queueLengths queue).map
      (fun length => length.elim .text fun n => .number (.finite n)) = queueLength jobs queue := by
  rw [summarizeJobs, apply_ite Summary.queueLengths, ite_self]
  unfold queueLength
  by_cases hp : queue = "__proto__"
  case pos =>
    rw [if_pos (.inl hp), hp, foldl_queueLengths_proto]
    rfl
  case neg =>
    by_cases hj : ∃ job ∈ jobs, job.queue = queue
    case pos =>
      have hn : ¬∀ job ∈ jobs, job.queue ≠ queue := by simpa using hj
      rw [foldl_queueLengths hp hj, if_neg fun h => h.elim hp fun h => hn h.right]
      by_cases hq : queue ∈ queues
      case pos => simp [initialSummary, addLength, hq, not_inherited queue hq]
      case neg =>
        by_cases hi : queue ∈ inherited
        case pos => simp [initialSummary, addLength, hq, hi]
        case neg => simp [initialSummary, addLength, hq, hi]
    case neg =>
      have hn : ∀ job ∈ jobs, job.queue ≠ queue := by simpa using hj
      rw [foldl_queueLengths_ne hn, countP_queue_eq_zero hn]
      by_cases hq : queue ∈ queues
      case pos => simp [initialSummary, hq, hp, not_inherited queue hq]
      case neg => rw [if_pos (.inr ⟨hq, hn⟩)]; simp [initialSummary, hq]

-- What the page shows is the list of jobs, summarized.
structure Reconciled (server : DashboardSnapshot) (listed : List Job) (shown : DashboardSnapshot) : Prop where
  totalJobs      : shown.overview.totalJobs = .finite listed.length
  jobs           : ∀ state, shown.overview.jobs state = .finite (listed.countP (·.state = state))
  queueLengths   : ∀ queue, shown.overview.queueLengths queue = queueLength listed queue
  averageExecMs  : shown.overview.averageExecMs = averageExecMs (Newest.sort (·.updatedAt) listed)
  activeWorkers  : shown.overview.activeWorkers = .finite server.workers.length
  delayedBacklog : shown.overview.delayedBacklog = .finite (listed.countP (delayed ·.state))
  blockedJobs    : shown.blockedJobs = Newest.newest (·.updatedAt) 16 (listed.filter (·.state = .blocked))
  throttledJobs  : shown.throttledJobs = Newest.newest (·.updatedAt) 16 (listed.filter (·.state = .throttled))

theorem queueLength_congr (h : jobs.Perm listed) : queueLength jobs queue = queueLength listed queue := by
  unfold queueLength
  simp only [h.mem_iff, h.countP_eq]

theorem finite_natCast (h : m = n) : Number.finite m = .finite n :=
  h ▸ rfl

theorem createConsoleDataFromApi_reconciled :
    Reconciled server jobs (createConsoleDataFromApi server jobs schedules now).snapshot := by
  have hp : (Newest.sort (·.updatedAt) jobs).Perm jobs := Newest.sort_perm
  constructor
  case totalJobs      => exact finite_natCast <| summarizeJobs_totalJobs.trans hp.length_eq
  case jobs           => exact fun state => finite_natCast <| summarizeJobs_jobs.trans <| hp.countP_eq _
  case queueLengths   => exact fun queue => summarizeJobs_queueLengths.trans <| queueLength_congr hp
  case averageExecMs  => exact summarizeJobs_averageExecMs
  case activeWorkers  => exact finite_natCast summarizeJobs_activeWorkers
  case delayedBacklog => exact finite_natCast <| summarizeJobs_delayedBacklog.trans <| hp.countP_eq _
  case blockedJobs    => exact congrArg _ (Newest.sort_filter _).symm
  case throttledJobs  => exact congrArg _ (Newest.sort_filter _).symm

-- What the server counted is shown if and only if it is what the list of jobs gives.
theorem createConsoleDataFromApi_keeps_iff :
    Keeps server (createConsoleDataFromApi server jobs schedules now).snapshot ↔ Consistent server jobs := by
  have hr : Reconciled server jobs (createConsoleDataFromApi server jobs schedules now).snapshot :=
    createConsoleDataFromApi_reconciled
  generalize (createConsoleDataFromApi server jobs schedules now).snapshot = shown at hr
  constructor
  case mp  =>
    intro hk
    constructor
    case totalJobs      => exact hk.totalJobs.symm.trans hr.totalJobs
    case jobs           => exact fun state => (congrFun hk.jobs state).symm.trans <| hr.jobs state
    case queueLengths   => exact fun queue => (congrFun hk.queueLengths queue).symm.trans <| hr.queueLengths queue
    case averageExecMs  => exact hk.averageExecMs.symm.trans hr.averageExecMs
    case activeWorkers  => exact hk.activeWorkers.symm.trans hr.activeWorkers
    case delayedBacklog => exact hk.delayedBacklog.symm.trans hr.delayedBacklog
    case blockedJobs    => exact hr.blockedJobs ▸ hk.blockedJobs
    case throttledJobs  => exact hr.throttledJobs ▸ hk.throttledJobs
  case mpr =>
    intro hc
    constructor
    case totalJobs      => exact hr.totalJobs.trans hc.totalJobs.symm
    case jobs           => exact funext fun state => (hr.jobs state).trans (hc.jobs state).symm
    case queueLengths   => exact funext fun queue => (hr.queueLengths queue).trans (hc.queueLengths queue).symm
    case averageExecMs  => exact hr.averageExecMs.trans hc.averageExecMs.symm
    case activeWorkers  => exact hr.activeWorkers.trans hc.activeWorkers.symm
    case delayedBacklog => exact hr.delayedBacklog.trans hc.delayedBacklog.symm
    case blockedJobs    => exact hr.blockedJobs ▸ hc.blockedJobs
    case throttledJobs  => exact hr.throttledJobs ▸ hc.throttledJobs

end

namespace Sample

def scheduledJob : Job where
  id               := "job-1"
  type             := "email.send"
  queue            := "default"
  tenantId         := "default"
  payload          := .object []
  priority         := .finite 5
  attempts         := .finite 0
  maxAttempts      := .finite 5
  state            := .scheduled
  schemaVersion    := .finite 1
  idempotencyKey   := ""
  workflowId       := ""
  dependencyPolicy := ""
  blockedReason    := ""
  createdAt        := 1767225600000
  updatedAt        := 1767225600000
  runAt            := 1767229200000
  timeoutSeconds   := .finite 0
  cancelRequested  := false
  executionMs      := .finite 0

-- A scheduled job waits in none of the queues.
def server : DashboardSnapshot where
  workers       := []
  deadLetters   := []
  blockedJobs   := []
  throttledJobs := []
  rateLimits    := []
  overview      := {
    totalJobs      := .finite 1
    jobs state     := if state = .scheduled then .finite 1 else .finite 0
    queueLengths q := if q ∈ queues then some (.number (.finite 0)) else none
    averageExecMs  := .finite 0
    lastUpdatedAt  := "2026-01-01T00:00:00Z"
    activeWorkers  := .finite 0
    delayedBacklog := .finite 1
  }

theorem not_keeps_queueLengths :
    ¬Keeps server (createConsoleDataFromApi server [scheduledJob] [] "2026-01-01T00:00:01.000Z").snapshot := by
  intro h
  have hs := (congrFun h.queueLengths "default").symm.trans <| createConsoleDataFromApi_reconciled.queueLengths "default"
  exact absurd hs (by decide)

end Sample
end JobPlatform.Dashboard
