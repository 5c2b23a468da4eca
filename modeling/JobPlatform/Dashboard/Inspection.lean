import JobPlatform.Dashboard.Hydration

namespace JobPlatform.Dashboard.Hydration

open Script Reuse

structure JobEvent where
  type       : String
  message    : Value
  occurredAt : Option Value

structure Idempotency where
  scope     : Text
  status    : String
  expiresAt : Int

structure Inspection where
  job         : Value
  events      : List JobEvent
  idempotency : Option Idempotency

-- What is found for a job may be what every object inherits.
inductive Found
  | inherited
  | missing
  | fallback (inspection : Inspection)

-- A value, or what is taken for it if it is falsy
def orElse (v : Option Value) (s : String) : Value :=
  if truthy v then v.getD .null else .string (text s)

section

variable (engine : Engine) (job : Value)

def startMessage : Completion Text := do
  if truthy (member "workerId" job) then
    return text "lease claimed by " ++ (← toString (member "workerId" job))
  else
    return text "worker started job"

def started : Completion (List JobEvent) := do
  if truthy (member "startedAt" job) then
    return [⟨"job.started", .string (← startMessage job), member "startedAt" job⟩]
  else
    return []

def completed : List JobEvent :=
  if truthy (member "finishedAt" job) ∧ inState "completed" job then
    [⟨"job.completed", .string (text "job completed successfully"), member "finishedAt" job⟩]
  else
    []

def failed : List JobEvent :=
  if truthy (member "finishedAt" job) ∧ inState "failed" job then
    [⟨"job.failed", orElse (member "lastError" job) "job failed", member "finishedAt" job⟩]
  else
    []

def blocked : List JobEvent :=
  if inState "blocked" job then
    [⟨"job.blocked", orElse (member "blockedReason" job) "waiting on dependencies", member "updatedAt" job⟩]
  else
    []

def buildSyntheticTimeline : Completion (List JobEvent) := do
  let message := text "job accepted into " ++ (← toString (member "queue" job))
  let events := ⟨"job.enqueued", .string message, member "createdAt" job⟩ :: (← started job)
  sortOn engine (fun event => getTime engine event.occurredAt) (fun left right => compareTimes right left)
    (events ++ completed job ++ failed job ++ blocked job)

def expiry (createdAt : Option Int) : Option Int :=
  createdAt.bind fun t => timeClip (t + 15 * 60 * 1000)

def createIdempotency : Completion Idempotency := do
  let tenantId ← toString (member "tenantId" job)
  let type ← toString (member "type" job)
  let idempotencyKey ← toString (member "idempotencyKey" job)
  let expiresAt ← toISOString <| expiry (← getTime engine (member "createdAt" job))
  return {
    scope     := tenantId ++ unit ':' :: type ++ unit ':' :: idempotencyKey
    status    := if inState "completed" job then "completed" else "accepted"
    expiresAt := expiresAt
  }

def createInspectionFallback : Completion Inspection := do
  let events ← buildSyntheticTimeline engine job
  if truthy (member "idempotencyKey" job) then
    return { job, events, idempotency := some (← createIdempotency engine job) }
  else
    return { job, events, idempotency := none }

end

-- No inspection has been stored, so what an object without members has is found.
def inheritedNames : List Text :=
  proto :: inherited.map text

def getInspection (engine : Engine) (jobs : List Item) (jobId : Text) : Completion Found :=
  if jobId ∈ inheritedNames then
    return .inherited
  else
    match jobs.find? fun candidate => textMember "id" candidate = some jobId with
    | some job => return .fallback (← createInspectionFallback engine job.value)
    | none     => return .missing

-- The data can be shown, and so can each of its jobs.
def Displays (engine : Engine) (live : Bool) (previous : Reuse.ConsoleData (List Item)) (input : Parsed) : Prop :=
  ∃ lists, refresh engine live previous input = .ok lists ∧
    let jobs := (lists .jobs).items (previous.lists .jobs)
    ∀ job ∈ jobs, ∀ id ∈ textMember "id" job, Returns (getInspection engine jobs id)

-- The times of the events that are made up for a job
def occurrences (job : Value) : List (Option Value) :=
  member "createdAt" job ::
    (if truthy (member "startedAt" job) then [member "startedAt" job] else []) ++
    (if truthy (member "finishedAt" job) ∧ inState "completed" job then [member "finishedAt" job] else []) ++
    (if truthy (member "finishedAt" job) ∧ inState "failed" job then [member "finishedAt" job] else []) ++
    (if inState "blocked" job then [member "updatedAt" job] else [])

structure Inspectable (engine : Engine) (job : Value) : Prop where
  queue       : (member "queue" job).all convertible
  workerId    : truthy (member "startedAt" job) → truthy (member "workerId" job) →
    (member "workerId" job).all convertible
  dates       : 2 ≤ (occurrences job).length → ∀ date ∈ occurrences job, date.all convertible
  scope       : truthy (member "idempotencyKey" job) → (member "tenantId" job).all convertible ∧
    (member "type" job).all convertible ∧ (member "idempotencyKey" job).all convertible
  expiry      : truthy (member "idempotencyKey" job) →
    ∃ t, getTime engine (member "createdAt" job) = .ok t ∧ expiry t ≠ none

-- Each job that is the first one with its id can be inspected.
def Inspectables (engine : Engine) (jobs : List Value) : Prop :=
  ∀ id ∉ inheritedNames, ∀ job ∈ jobs.find? (textIn "id" · = some id), Inspectable engine job

structure Displayable (engine : Engine) (previous : Reuse.ConsoleData (List Item)) (input : Parsed) : Prop where
  load        : Loadable input
  inspections : ∀ jobs, sortJobs engine input.jobs = .ok jobs →
    (Recurs (textMember "id") (previous.lists .jobs) (tracked jobs) →
      Inspectables engine ((previous.lists .jobs).map (·.value))) ∧
    (¬Recurs (textMember "id") (previous.lists .jobs) (tracked jobs) → Inspectables engine jobs)

section

variable {engine : Engine} {job : Value} {events : List JobEvent}

theorem inspectable_iff : Inspectable engine job ↔
    ((member "queue" job).all convertible ∧
    (truthy (member "startedAt" job) → truthy (member "workerId" job) → (member "workerId" job).all convertible) ∧
    (2 ≤ (occurrences job).length → ∀ date ∈ occurrences job, date.all convertible)) ∧
    (truthy (member "idempotencyKey" job) → (member "tenantId" job).all convertible ∧
      (member "type" job).all convertible ∧ (member "idempotencyKey" job).all convertible ∧
      ∃ t, getTime engine (member "createdAt" job) = .ok t ∧ expiry t ≠ none) := by
  constructor
  case mp  =>
    intro h
    exact ⟨⟨h.queue, h.workerId, h.dates⟩,
      fun hk => ⟨(h.scope hk).1, (h.scope hk).2.1, (h.scope hk).2.2, h.expiry hk⟩⟩
  case mpr =>
    intro ⟨⟨hq, hw, hd⟩, hk⟩
    exact ⟨hq, hw, hd, fun h => ⟨(hk h).1, (hk h).2.1, (hk h).2.2.1⟩, fun h => (hk h).2.2.2⟩

theorem returns_startMessage : Returns (startMessage job) ↔
    (truthy (member "workerId" job) → (member "workerId" job).all convertible) := by
  unfold startMessage
  split
  case isTrue h  =>
    rw [returns_bind_of_forall fun _ => returns_pure, returns_toString]
    exact (imp_iff_right h).symm
  case isFalse h => exact iff_of_true returns_pure (absurd · h)

theorem returns_started : Returns (started job) ↔
    (truthy (member "startedAt" job) → truthy (member "workerId" job) → (member "workerId" job).all convertible) := by
  unfold started
  split
  case isTrue h  =>
    rw [returns_bind_of_forall fun _ => returns_pure, returns_startMessage]
    exact (imp_iff_right h).symm
  case isFalse h => exact iff_of_true returns_pure (absurd · h)

theorem started_eq_ok (h : started job = .ok events) :
    events.map (·.occurredAt) = if truthy (member "startedAt" job) then [member "startedAt" job] else [] := by
  unfold started at h
  split at h
  case isTrue ht  =>
    obtain ⟨_, _, h⟩ := bind_eq_ok.mp h
    cases h
    rw [if_pos ht]
    rfl
  case isFalse ht =>
    cases h
    rw [if_neg ht]
    rfl

theorem timeline_occurrences (h : started job = .ok events) (message : Value) :
    (JobEvent.mk "job.enqueued" message (member "createdAt" job) ::
      events ++ completed job ++ failed job ++ blocked job).map (·.occurredAt) = occurrences job := by
  simp only [List.map_append, List.map_cons, started_eq_ok h, completed, failed, blocked, occurrences,
    apply_ite (List.map _), List.map_nil]

theorem returns_buildSyntheticTimeline : Returns (buildSyntheticTimeline engine job) ↔
    (member "queue" job).all convertible ∧
    (truthy (member "startedAt" job) → truthy (member "workerId" job) → (member "workerId" job).all convertible) ∧
    (2 ≤ (occurrences job).length → ∀ date ∈ occurrences job, date.all convertible) := by
  unfold buildSyntheticTimeline
  rw [← returns_toString, ← returns_started]
  refine returns_bind_iff fun queue _ => returns_bind_iff fun events h => ?_
  rw [returns_sortOn, ← timeline_occurrences h (.string (text "job accepted into " ++ queue)), List.length_map,
    List.forall_mem_map]
  exact imp_congr_right fun _ => forall₂_congr fun _ _ => returns_getTime

theorem returns_createIdempotency : Returns (createIdempotency engine job) ↔
    (member "tenantId" job).all convertible ∧ (member "type" job).all convertible ∧
    (member "idempotencyKey" job).all convertible ∧
    ∃ t, getTime engine (member "createdAt" job) = .ok t ∧ expiry t ≠ none := by
  unfold createIdempotency
  have he {t : Option Int} : Returns (toISOString t) ↔ t ≠ none := by
    cases t
    case none   => exact iff_of_false not_returns_error (· rfl)
    case some t => exact iff_of_true returns_pure nofun
  rw [← returns_toString, ← returns_toString, ← returns_toString]
  refine returns_bind_iff fun _ _ => returns_bind_iff fun _ _ => returns_bind_iff fun _ _ => returns_bind.trans ?_
  exact exists_congr fun t => and_congr_right' <| (returns_bind_of_forall fun _ => returns_pure).trans he

theorem returns_createInspectionFallback :
    Returns (createInspectionFallback engine job) ↔ Inspectable engine job := by
  have hi : Returns (createInspectionFallback engine job) ↔ Returns (buildSyntheticTimeline engine job) ∧
      (truthy (member "idempotencyKey" job) → Returns (createIdempotency engine job)) := by
    refine returns_bind_iff fun events _ => ?_
    split
    case isTrue h  =>
      rw [returns_bind_of_forall fun _ => returns_pure]
      exact (imp_iff_right h).symm
    case isFalse h => exact iff_of_true returns_pure (absurd · h)
  rw [hi, returns_buildSyntheticTimeline, returns_createIdempotency, inspectable_iff]

end

section

variable {engine : Engine} {job : Value} {jobs jobs' : List Value} {items previous : List Item} {name : String}

theorem textIn_sortValue (h : text name ≠ proto) : textIn name (sortValue job) = textIn name job := by
  rw [textIn, textIn, member_sortValue h]
  cases member name job
  case none   => rfl
  case some v => cases v <;> rfl

theorem inState_sortValue {state : String} : inState state (sortValue job) = inState state job := by
  rw [inState, inState, textIn_sortValue (by decide)]

theorem all_convertible_sortValue (h : text name ≠ proto) :
    (member name (sortValue job)).all convertible = (member name job).all convertible := by
  rw [member_sortValue h]
  cases member name job
  case none   => rfl
  case some v => exact convertible_sortValue

theorem truthy_member_sortValue (h : text name ≠ proto) :
    truthy (member name (sortValue job)) = truthy (member name job) := by
  rw [member_sortValue h, truthy_sortValue]

theorem getTime_sortValue (h : text name ≠ proto) :
    getTime engine (member name (sortValue job)) = getTime engine (member name job) := by
  rw [getTime, member_sortValue h, toPrimitive_sortValue, getTime]

theorem occurrences_sortValue : occurrences (sortValue job) = (occurrences job).map (Option.map sortValue) := by
  simp (disch := decide) only [occurrences, inState_sortValue, member_sortValue, truthy_sortValue, List.map_append,
    List.map_cons, List.map_nil, apply_ite (List.map _)]

theorem dates_sortValue : (∀ date ∈ occurrences (sortValue job), date.all convertible) ↔
    ∀ date ∈ occurrences job, date.all convertible := by
  rw [occurrences_sortValue, List.forall_mem_map]
  refine forall₂_congr fun date _ => ?_
  cases date
  case none      => rfl
  case some date => exact Bool.eq_iff_iff.mp convertible_sortValue

theorem inspectable_sortValue : Inspectable engine (sortValue job) ↔ Inspectable engine job := by
  have hl : (occurrences (sortValue job)).length = (occurrences job).length := by
    rw [occurrences_sortValue, List.length_map]
  rw [inspectable_iff, inspectable_iff, hl, dates_sortValue]
  simp (disch := decide) only [all_convertible_sortValue, truthy_member_sortValue, getTime_sortValue]

theorem inspectables_map_sortValue : Inspectables engine (jobs.map sortValue) ↔ Inspectables engine jobs := by
  unfold Inspectables
  refine forall₂_congr fun id _ => ?_
  have hf : (jobs.map sortValue).find? (textIn "id" · = some id) = (jobs.find? (textIn "id" · = some id)).map sortValue := by
    rw [List.find?_map]
    congr 2
    funext job
    rw [Function.comp_apply, textIn_sortValue (by decide)]
  rw [hf]
  cases jobs.find? (textIn "id" · = some id)
  case none     => simp
  case some job => simp [inspectable_sortValue]

-- Jobs that serialize alike can be inspected alike.
theorem inspectables_congr (h : jobs.map sortValue = jobs'.map sortValue) :
    Inspectables engine jobs ↔ Inspectables engine jobs' := by
  rw [← inspectables_map_sortValue, h, inspectables_map_sortValue]

theorem returns_getInspection :
    (∀ item ∈ items, ∀ id ∈ textMember "id" item, Returns (getInspection engine items id)) ↔
      Inspectables engine (items.map (·.value)) := by
  have hf (id : Text) : (items.map (·.value)).find? (textIn "id" · = some id) =
      (items.find? (textMember "id" · = some id)).map (·.value) := List.find?_map ..
  have hg {id : Text} (h : id ∉ inheritedNames) {item : Item} (hi : items.find? (textMember "id" · = some id) = some item) :
      Returns (getInspection engine items id) ↔ Inspectable engine item.value := by
    rw [getInspection, if_neg h, hi, ← returns_createInspectionFallback]
    exact returns_bind_of_forall fun _ => returns_pure
  constructor
  case mp  =>
    intro h id hn job hj
    rw [hf] at hj
    obtain ⟨item, hi, rfl⟩ := Option.map_eq_some_iff.mp hj
    have hid : textMember "id" item = some id := by simpa using List.find?_some hi
    exact (hg hn hi).mp <| h item (List.mem_of_find?_eq_some hi) id hid
  case mpr =>
    intro h item hi id hid
    by_cases hn : id ∈ inheritedNames
    case pos =>
      rw [getInspection, if_pos hn]
      exact returns_pure
    case neg =>
      have hs : (items.find? (textMember "id" · = some id)).isSome := List.find?_isSome.mpr ⟨item, hi, by simpa using hid⟩
      obtain ⟨first, hj⟩ := Option.isSome_iff_exists.mp hs
      exact (hg hn hj).mpr <| h id hn first.value (by rw [hf, hj]; rfl)

theorem tracked_values (values : List Value) : (tracked values).map (·.value) = values := by
  rw [tracked, List.map_map]
  exact List.zipIdx_map_fst 0 values

-- What is shown of the jobs serializes like the jobs themselves, unless the previous list is kept.
theorem inspectables_reuseList :
    Inspectables engine (((reuseList (textMember "id") previous (tracked jobs)).items previous).map (·.value)) ↔
      (Recurs (textMember "id") previous (tracked jobs) → Inspectables engine (previous.map (·.value))) ∧
      (¬Recurs (textMember "id") previous (tracked jobs) → Inspectables engine jobs) := by
  by_cases hr : Recurs (textMember "id") previous (tracked jobs)
  case pos =>
    rw [reuseList_of_recurs hr]
    exact ⟨fun h => ⟨fun _ => h, absurd hr⟩, fun h => h.left hr⟩
  case neg =>
    have hs : (((tracked jobs).map fun y => (existing (textMember "id") previous y).getD y).map (·.value)).map sortValue =
        jobs.map sortValue := by
      rw [← tracked_values jobs, List.map_map, List.map_map, List.map_map, tracked_values]
      exact List.map_congr_left fun y _ => sortValue_existing
    rw [reuseList_of_not_recurs hr, Reused.items, inspectables_congr hs]
    exact ⟨fun h => ⟨fun h' => absurd h' hr, fun _ => h⟩, fun h => h.right hr⟩

end

-- What the parsers accept can be displayed if and only if it also passes the checks that they leave out.
theorem refresh_displays_iff {engine : Engine} {live : Bool} {previous : Reuse.ConsoleData (List Item)} {r : Responses}
    {input : Parsed} (h : r.parse = .ok input) :
    Displays engine live previous input ↔ Displayable engine previous input := by
  have hw : input.WellFormed := parse_wellFormed h
  constructor
  case mp  =>
    intro ⟨lists, hl, hi⟩
    refine ⟨(returns_refresh hw).mp ⟨lists, hl⟩, fun jobs hj => ?_⟩
    obtain ⟨jobs', hj', he⟩ := refresh_jobs hl
    cases hj.symm.trans hj'
    rw [returns_getInspection, he] at hi
    exact inspectables_reuseList.mp hi
  case mpr =>
    intro ⟨hl, hi⟩
    obtain ⟨lists, hl⟩ := (returns_refresh hw).mpr hl
    obtain ⟨jobs, hj, he⟩ := refresh_jobs hl
    refine ⟨lists, hl, ?_⟩
    rw [returns_getInspection, he]
    exact inspectables_reuseList.mpr (hi jobs hj)

namespace Sample

def time : Primitive → Option Int
  | .null     => some 0
  | .bool b   => some b.toNat
  | .number _ => none
  | .string s => if s = text "2026-01-01T00:00:00Z" then some 1767225600000 else none

def engine : Engine where
  time           := time
  difference _ _ := .eq
  sort compare l := l.insertionSort fun left right => compare left right ≠ .gt
  sort_perm _ l  := List.perm_insertionSort _ l

def empty : Reuse.ConsoleData (List Item) :=
  Reuse.Sample.listed []

-- A snapshot of a server that has neither workers nor dead letters
def snapshot : Value :=
  .object [
    (text "overview", .object []),
    (text "metrics", .object []),
    (text "trend", trendValue fun _ => []),
    (text "workers", .array []),
    (text "deadLetters", .array []),
    (text "rateLimits", .array [])
  ]

def job : Value :=
  (Reuse.Sample.job 1 "job-1").value

def responses : Responses :=
  ⟨snapshot, .array [job], .array [], .array []⟩

def input : Parsed :=
  ⟨snapshot, [job], [], []⟩

theorem job_inspectable : Inspectable engine job := by
  constructor
  case queue    => decide
  case workerId => decide
  case dates    => decide
  case scope    => decide
  case expiry   => exact fun h => absurd h (by decide)

theorem input_loadable : Loadable input := by
  constructor
  case executionMs => exact List.forall_mem_singleton.mpr (by decide)
  case updatedAt   => exact fun h => absurd h (by decide)
  case nextRunAt   => exact fun h => absurd h (by decide)
  case workers     => exact ⟨[], rfl, nofun, nofun⟩
  case deadLetters => exact ⟨[], rfl, nofun, nofun⟩
  case rateLimits  => exact ⟨[], rfl, nofun⟩
  case trend       =>
    intro name h
    simp only [seriesNames, List.mem_cons, List.not_mem_nil, or_false] at h
    obtain rfl | rfl | rfl | rfl | rfl := h
    all_goals exact ⟨[], rfl, nofun⟩

theorem refresh_displays_job : Displays engine true empty input := by
  have hp : responses.parse = .ok input := rfl
  refine (refresh_displays_iff hp).mpr ⟨input_loadable, fun jobs hj => ?_⟩
  have hj : [job] = jobs := Except.ok.inj hj
  subst hj
  refine ⟨fun h => absurd h.left (by decide), fun _ id _ first hf => ?_⟩
  have hf := List.mem_singleton.mp (List.mem_of_find?_eq_some hf)
  exact hf ▸ job_inspectable

-- The parser does not ask for the lists of a snapshot.
def bare : Value :=
  .object [(text "overview", .object []), (text "metrics", .object []), (text "trend", .object [])]

theorem not_displays_bare : Responses.parse ⟨bare, .array [], .array [], .array []⟩ = .ok ⟨bare, [], [], []⟩ ∧
    ¬Displays engine true empty ⟨bare, [], [], []⟩ := by
  refine ⟨rfl, fun ⟨lists, h, _⟩ => ?_⟩
  cases h

end Sample
end JobPlatform.Dashboard.Hydration
