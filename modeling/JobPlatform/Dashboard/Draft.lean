import JobPlatform.Dashboard.Models
import JobPlatform.Live.Transport

namespace JobPlatform.Dashboard

structure JobDraft where
  type                : String
  queue               : String
  tenantId            : String
  priority            : String
  maxAttempts         : String
  timeoutSeconds      : String
  delaySeconds        : String
  scheduledAt         : String
  workflowId          : String
  dependencies        : String
  idempotencyKey      : String
  dedupeWindowSeconds : String
  payload             : String

structure RequestBody where
  type                : String
  queue               : String
  tenantId            : String
  priority            : Number
  maxAttempts         : Number
  timeoutSeconds      : Number
  delaySeconds        : Number
  scheduledAt         : Option Int
  schemaVersion       : Number
  workflowId          : Option String
  dependencies        : Option (List String)
  dependencyPolicy    : Option String
  idempotencyKey      : Option String
  dedupeWindowSeconds : Number
  payload             : Json

-- What the language makes of a text and of a value: `Number`, the time value of a `Date`, `JSON.stringify`, and the
-- message of the error that `JSON.parse` throws.
structure Language where
  number      : String → Number
  getTime     : String → Option Int
  stringify   : Json → String
  syntaxError : String → String

-- A date is not too far from 1970.
def timeClip : Number → Option Int
  | .finite q => if |q| ≤ 8640000000000000 then some (if 0 ≤ q then ⌊q⌋ else ⌈q⌉) else none
  | _         => none

def clamp (value min max : Number) : Number :=
  (value.mathMax min).mathMin max

def isSeparator (c : Char) : Bool :=
  Live.isWhiteSpace c || c = ','

-- Several separators in a row split the text like one, as the empty texts between them are dropped.
def parseDependencyIds (value : String) : List String :=
  (((Live.safeTrim value).toList.splitOnP isSeparator).map String.ofList).filter (· ≠ "")

def orDefault (value fallback : String) : String :=
  if value = "" then fallback else value

section

variable (lang : Language) (now : Nat)

def asNumber (value : String) (fallback : Number) : Number :=
  if (lang.number value).isFinite then lang.number value else fallback

-- The value and the error. There is none of both for a blank text.
def safeJsonParse (input : String) : Option Json × String :=
  if Live.safeTrim input = "" then (none, "")
  else
    match Json.parse (Live.safeTrim input).toList with
    | some value => (some value, "")
    | none       => (none, lang.syntaxError (Live.safeTrim input))

def validateJobForm (draft : JobDraft) : List (String × String) :=
  let payloadResult := safeJsonParse lang draft.payload
  (if Live.safeTrim draft.type = "" then [("type", "Job type is required.")] else []) ++
  (if Live.safeTrim draft.tenantId = "" then [("tenantId", "Tenant is required.")] else []) ++
  (if payloadResult.2 ≠ "" then [("payload", "Payload JSON is invalid: " ++ payloadResult.2)] else []) ++
  (if (lang.number draft.priority).lt (.finite 0) ∨ (Number.finite 9).lt (lang.number draft.priority) then
    [("priority", "Priority must stay between 0 and 9.")]
  else
    []) ++
  (if Live.safeTrim draft.scheduledAt ≠ "" ∧ (lang.getTime draft.scheduledAt).all (· ≤ (now : Int)) then
    [("scheduledAt", "Provide a valid future timestamp.")]
  else
    [])

-- The body of the request, unless the payload has no value.
def requestBody (draft : JobDraft) (payload : Json) : RequestBody :=
  let dependencies := parseDependencyIds draft.dependencies
  {
    payload
    type                := Live.safeTrim draft.type
    queue               := orDefault (Live.safeTrim draft.queue) "default"
    tenantId            := orDefault (Live.safeTrim draft.tenantId) "default"
    priority            := clamp ((lang.number draft.priority).orElse (.finite 5)) (.finite 0) (.finite 9)
    maxAttempts         := ((lang.number draft.maxAttempts).orElse (.finite 5)).mathMax (.finite 1)
    timeoutSeconds      := ((lang.number draft.timeoutSeconds).orElse (.finite 0)).mathMax (.finite 0)
    delaySeconds        := ((lang.number draft.delaySeconds).orElse (.finite 0)).mathMax (.finite 0)
    scheduledAt         := if Live.safeTrim draft.scheduledAt ≠ "" then lang.getTime draft.scheduledAt else none
    schemaVersion       := .finite 1
    workflowId          := if Live.safeTrim draft.workflowId ≠ "" then some (Live.safeTrim draft.workflowId) else none
    dependencies        := if 0 < dependencies.length then some dependencies else none
    dependencyPolicy    := if 0 < dependencies.length then some "block" else none
    idempotencyKey      :=
      if Live.safeTrim draft.idempotencyKey ≠ "" then some (Live.safeTrim draft.idempotencyKey) else none
    dedupeWindowSeconds :=
      clamp ((lang.number draft.dedupeWindowSeconds).orElse (.finite 0)) (.finite 0) (.finite 86400)
  }

-- The run time of a job of the demo, where a delay overrides the scheduled time.
def demoRunAt (draft : JobDraft) : Option Int :=
  let scheduledAt := Live.safeTrim draft.scheduledAt
  let delaySeconds := asNumber lang draft.delaySeconds (.finite 0)
  let scheduled := if scheduledAt ≠ "" then (lang.getTime scheduledAt).getD now else (now : Int)
  if (Number.finite 0).lt delaySeconds then
    timeClip <| (Number.finite now).add <| delaySeconds.mul (.finite 1000)
  else
    some scheduled

-- There is no job if the text of its date cannot be written.
def createJobFromDraft (draft : JobDraft) (payload : Json) (id : String) : Option Job :=
  let dependencies := parseDependencyIds draft.dependencies
  (demoRunAt lang now draft).map fun runAt => {
    id, payload, runAt
    type             := orDefault (Live.safeTrim draft.type) "email.send"
    queue            := orDefault (Live.safeTrim draft.queue) "default"
    tenantId         := orDefault (Live.safeTrim draft.tenantId) "default"
    priority         := clamp (asNumber lang draft.priority (.finite 5)) (.finite 0) (.finite 9)
    attempts         := .finite 0
    maxAttempts      := (asNumber lang draft.maxAttempts (.finite 5)).mathMax (.finite 1)
    state            :=
      if 0 < dependencies.length then .blocked else if (now : Int) < runAt then .scheduled else .queued
    schemaVersion    := .finite 1
    idempotencyKey   := Live.safeTrim draft.idempotencyKey
    workflowId       := Live.safeTrim draft.workflowId
    dependencyPolicy := if 0 < dependencies.length then "block" else ""
    blockedReason    := if 0 < dependencies.length then waitingOn dependencies.length else ""
    createdAt        := now
    updatedAt        := now
    timeoutSeconds   := (asNumber lang draft.timeoutSeconds (.finite 60)).mathMax (.finite 0)
    cancelRequested  := false
    executionMs      := .finite 0
  }

end

-- A number as the backend reads it into an integer of 64 bits. A number that is not finite is written as `null`, which
-- leaves the field unset.
def decodeInt : Number → Option (Option Int)
  | .finite q => if q.den = 1 ∧ -2 ^ 63 ≤ q.num ∧ q.num < 2 ^ 63 then some (some q.num) else none
  | _         => some none

-- Years of more than four digits cannot be read.
def decodeTime (t : Int) : Option Time :=
  if -62167219200000 ≤ t ∧ t < 253402300800000 then some (t * 1000000) else none

-- The request that the backend reads from the text of the body, unless a field cannot be read.
def decode (lang : Language) (body : RequestBody) : Option JobRequest := do
  let priority ← decodeInt body.priority
  let maxAttempts ← decodeInt body.maxAttempts
  let delaySeconds ← decodeInt body.delaySeconds
  let scheduledAt ← body.scheduledAt.mapM decodeTime
  let timeoutSeconds ← decodeInt body.timeoutSeconds
  let schemaVersion ← decodeInt body.schemaVersion
  let dedupeWindowSeconds ← decodeInt body.dedupeWindowSeconds
  some {
    priority, scheduledAt
    type                := body.type
    queue               := body.queue
    tenantID            := body.tenantId
    payload             := lang.stringify body.payload
    maxAttempts         := maxAttempts.getD 0
    delaySeconds        := delaySeconds.getD 0
    timeoutSeconds      := timeoutSeconds.getD 0
    schemaVersion       := schemaVersion.getD 0
    idempotencyKey      := body.idempotencyKey.getD ""
    dedupeWindowSeconds := dedupeWindowSeconds.getD 0
    dependencies        := body.dependencies.getD []
    dependencyPolicy    := body.dependencyPolicy.getD ""
    workflowID          := body.workflowId.getD ""
    parentJobID         := ""
  }

-- The job of the demo and the one of the backend mean the same. Instants of the backend are in nanoseconds.
structure Agrees (demo : Job) (live : JobPlatform.Job) : Prop where
  type           : demo.type = live.type
  queue          : demo.queue = live.queue
  tenant         : demo.tenantId = live.tenantID
  priority       : demo.priority = .finite live.priority
  maxAttempts    : demo.maxAttempts = .finite live.maxAttempts
  timeoutSeconds : demo.timeoutSeconds = .finite live.timeoutSeconds
  state          : demo.state = live.state
  runAt          : demo.runAt * 1000000 = live.runAt

-- A number of seconds or attempts that the backend can read.
def Readable (q : ℚ) : Prop :=
  q.den = 1 ∧ q.num < 2 ^ 63

section

variable {x : Number} {q : ℚ} {n : Option Int}

theorem clamp_finite {a b : ℚ} : clamp (.finite q) (.finite a) (.finite b) = .finite (min (max q a) b) := by
  rw [clamp, Number.mathMax_finite, Number.mathMin_finite]

theorem decodeInt_finite : decodeInt (.finite q) = some n ↔
    (q.den = 1 ∧ -2 ^ 63 ≤ q.num ∧ q.num < 2 ^ 63) ∧ n = some q.num := by
  unfold decodeInt
  dsimp only
  split
  case isTrue h  => rw [Option.some.injEq, eq_comm, iff_and_self]; exact fun _ => h
  case isFalse h => exact iff_of_false nofun fun hc => h hc.left

theorem decodeInt_of_readable (h : Readable q) (hq : 0 ≤ q) : decodeInt (.finite q) = some (some q.num) :=
  decodeInt_finite.mpr ⟨⟨h.left, by have := Rat.num_nonneg.mpr hq; omega, h.right⟩, rfl⟩

theorem readable_of_decodeInt (h : decodeInt (.finite q) = some n) : Readable q ∧ n = some q.num :=
  have ⟨⟨hd, _, hn⟩, he⟩ := decodeInt_finite.mp h
  ⟨⟨hd, hn⟩, he⟩

theorem finite_num (h : q.den = 1) : Number.finite (q.num : Int) = .finite q :=
  congrArg Number.finite <| Rat.coe_int_num_of_den_eq_one h

theorem lt_two_pow (h : q.den = 1) (hq : q ≤ 2 ^ 62) : q.num < 2 ^ 63 := by
  rw [← Rat.coe_int_num_of_den_eq_one h] at hq
  have hn : q.num ≤ 2 ^ 62 := by exact_mod_cast hq
  omega

theorem timeout_iff :
    (∃ n, decodeInt ((x.orElse (.finite 0)).mathMax (.finite 0)) = some n ∧
      (if x.isFinite then x else .finite 60).mathMax (.finite 0) = .finite (n.getD 0 : Int)) ↔
    ∃ q, x = .finite q ∧ (0 < q → Readable q) := by
  cases x
  case nan        => exact iff_of_false (by rintro ⟨n, hn, he⟩; cases hn; exact absurd he (by decide)) nofun
  case infinite s =>
    refine iff_of_false ?_ nofun
    rintro ⟨n, hn, he⟩
    cases s <;> cases hn <;> exact absurd he (by decide)
  case finite q   =>
    rw [Number.orElse_zero]
    simp only [Number.isFinite, if_true, Number.mathMax_finite, Number.finite.injEq, exists_eq_left']
    by_cases hq : 0 < q
    case neg =>
      rw [max_eq_right (not_lt.mp hq)]
      exact iff_of_true ⟨some 0, rfl, rfl⟩ fun h => absurd h hq
    case pos =>
      rw [max_eq_left hq.le]
      constructor
      case mp  => exact fun ⟨_, hn, _⟩ _ => (readable_of_decodeInt hn).left
      case mpr => exact fun h => ⟨_, decodeInt_of_readable (h hq) hq.le, (Rat.coe_int_num_of_den_eq_one (h hq).left).symm⟩

theorem priority_iff (h₀ : ¬x.lt (.finite 0)) (h₉ : ¬(Number.finite 9).lt x) :
    (∃ n, decodeInt (clamp (x.orElse (.finite 5)) (.finite 0) (.finite 9)) = some n ∧
      clamp (if x.isFinite then x else .finite 5) (.finite 0) (.finite 9) = .finite (n.getD 5 : Int)) ↔
    x ≠ .finite 0 ∧ ∀ q, x = .finite q → q.den = 1 := by
  cases x
  case nan        => exact iff_of_true ⟨some 5, rfl, rfl⟩ ⟨nofun, nofun⟩
  case infinite s => cases s <;> simp [Number.lt] at h₀ h₉
  case finite q   =>
    have hq₀ : 0 ≤ q := by simpa [Number.lt] using h₀
    have hq₉ : q ≤ 9 := by simpa [Number.lt] using h₉
    simp only [Number.isFinite, if_true, clamp_finite, max_eq_left hq₀, min_eq_left hq₉]
    by_cases hz : q = 0
    case pos =>
      refine iff_of_false ?_ fun h => h.left (congrArg Number.finite hz)
      rintro ⟨n, hn, he⟩
      rw [hz] at hn he
      cases hn
      exact absurd he (by decide)
    case neg =>
      rw [Number.orElse_finite hz, clamp_finite, max_eq_left hq₀, min_eq_left hq₉]
      constructor
      case mp  =>
        intro ⟨_, hn, _⟩
        exact ⟨by simpa using hz, fun _ hp => Number.finite.inj hp ▸ (readable_of_decodeInt hn).left.left⟩
      case mpr =>
        intro ⟨_, h⟩
        have hd := h q rfl
        have hn : q.num < 2 ^ 63 := lt_two_pow hd (hq₉.trans (by norm_num))
        exact ⟨_, decodeInt_of_readable ⟨hd, hn⟩ hq₀, (finite_num hd).symm⟩

theorem maxAttempts_iff :
    (∃ n, decodeInt ((x.orElse (.finite 5)).mathMax (.finite 1)) = some n ∧
      (if x.isFinite then x else .finite 5).mathMax (.finite 1) =
        .finite (if n.getD 0 ≤ 0 then 5 else n.getD 0 : Int)) ↔
    x ≠ .finite 0 ∧ x ≠ .infinite true ∧ ∀ q, x = .finite q → 1 < q → Readable q := by
  cases x
  case nan        => exact iff_of_true ⟨some 5, rfl, rfl⟩ ⟨nofun, nofun, nofun⟩
  case infinite s =>
    cases s
    case false => exact iff_of_true ⟨none, rfl, rfl⟩ ⟨nofun, nofun, nofun⟩
    case true  => exact iff_of_false (by rintro ⟨n, hn, he⟩; cases hn; exact absurd he (by decide)) (absurd rfl ·.2.1)
  case finite q   =>
    simp only [Number.isFinite, if_true, Number.mathMax_finite]
    by_cases hz : q = 0
    case pos =>
      refine iff_of_false ?_ fun h => h.left (congrArg Number.finite hz)
      rintro ⟨n, hn, he⟩
      rw [hz] at hn he
      cases hn
      exact absurd he (by decide)
    case neg =>
      rw [Number.orElse_finite hz, Number.mathMax_finite]
      by_cases hq : 1 < q
      case neg =>
        rw [max_eq_right (not_lt.mp hq)]
        refine iff_of_true ⟨some 1, rfl, rfl⟩ ⟨by simpa using hz, nofun, fun _ hp h => absurd h ?_⟩
        exact Number.finite.inj hp ▸ hq
      case pos =>
        rw [max_eq_left hq.le]
        constructor
        case mp  =>
          intro ⟨_, hn, _⟩
          exact ⟨by simpa using hz, nofun, fun _ hp _ => Number.finite.inj hp ▸ (readable_of_decodeInt hn).left⟩
        case mpr =>
          intro ⟨_, _, h⟩
          have hr := h q rfl hq
          have hp : ¬q.num ≤ 0 := not_le.mpr <| Rat.num_pos.mpr (zero_lt_one.trans hq)
          refine ⟨_, decodeInt_of_readable hr (zero_lt_one.trans hq).le, ?_⟩
          rw [Option.getD_some, if_neg hp, finite_num hr.left]

theorem dedupe_iff : (∃ n, decodeInt (clamp (x.orElse (.finite 0)) (.finite 0) (.finite 86400)) = some n) ↔
    ∀ q, x = .finite q → 0 < q → q < 86400 → q.den = 1 := by
  cases x
  case nan        => exact iff_of_true ⟨some 0, rfl⟩ nofun
  case infinite s => cases s <;> exact iff_of_true ⟨_, rfl⟩ nofun
  case finite q   =>
    rw [Number.orElse_zero, clamp_finite]
    by_cases hq : 0 < q
    case neg =>
      rw [max_eq_right (not_lt.mp hq)]
      exact iff_of_true ⟨some 0, rfl⟩ fun _ hp h => absurd h (Number.finite.inj hp ▸ hq)
    case pos =>
      rw [max_eq_left hq.le]
      by_cases hl : q < 86400
      case neg =>
        rw [min_eq_right (not_lt.mp hl)]
        exact iff_of_true ⟨some 86400, rfl⟩ fun _ hp _ h => absurd h (Number.finite.inj hp ▸ hl)
      case pos =>
        rw [min_eq_left hl.le]
        constructor
        case mp  => exact fun ⟨_, hn⟩ _ hp _ _ => Number.finite.inj hp ▸ (readable_of_decodeInt hn).left.left
        case mpr =>
          intro h
          have hd := h q rfl hq hl
          exact ⟨_, decodeInt_of_readable ⟨hd, lt_two_pow hd (hl.le.trans (by norm_num))⟩ hq.le⟩

-- A delay that is not positive counts as none.
theorem decodeInt_of_undelayed (h : ∀ q, x = .finite q → q ≤ 0) :
    (∃ n, decodeInt ((x.orElse (.finite 0)).mathMax (.finite 0)) = some n ∧ n.getD 0 = 0) ∧
    ¬(Number.finite 0).lt (if x.isFinite then x else .finite 0) := by
  cases x
  case nan        => exact ⟨⟨some 0, rfl, rfl⟩, by decide⟩
  case infinite s => cases s <;> exact ⟨⟨_, rfl, rfl⟩, by decide⟩
  case finite q   =>
    rw [Number.orElse_zero, Number.mathMax_finite, max_eq_right (h q rfl)]
    exact ⟨⟨some 0, rfl, rfl⟩, by simpa [Number.isFinite, Number.lt] using h q rfl⟩

theorem timeClip_of_large (h : 2 ^ 53 ≤ q) : timeClip (Number.round q) = none := by
  obtain hr | ⟨r, hr, he⟩ := Number.le_round h
  · rw [hr]
    rfl
  · rw [he]
    have hp : (8640000000000000 : ℚ) < |r| := by
      rw [abs_of_pos (lt_of_lt_of_le (by positivity) hr)]
      exact lt_of_lt_of_le (by norm_num) hr
    exact if_neg (not_le.mpr hp)

theorem timeClip_intCast (t : Int) (h : 0 ≤ t) :
    timeClip (.finite t) = if t ≤ 8640000000000000 then some t else none := by
  have hq : (0 : ℚ) ≤ t := by exact_mod_cast h
  have hl : (t : ℚ) ≤ 8640000000000000 ↔ t ≤ 8640000000000000 := by norm_cast
  simp only [timeClip, abs_of_nonneg hq, hl, hq, if_true, Int.floor_intCast]

-- The run time of a delayed job of the demo.
theorem timeClip_delayed (now : Nat) {d : Int} (hd : 0 < d) :
    timeClip ((Number.finite now).add ((Number.finite d).mul (.finite 1000))) =
      if now + d * 1000 ≤ 8640000000000000 then some (now + d * 1000) else none := by
  have hn : (now : ℚ) = ((now : Int) : ℚ) := (Int.cast_natCast now).symm
  have hc : (1000 : ℚ) = ((1000 : Int) : ℚ) := by norm_num
  by_cases hm : d * 1000 < 2 ^ 53
  case pos =>
    rw [hn, hc, Number.mul_intCast (abs_lt.mpr ⟨by omega, hm⟩)]
    by_cases hs : now + d * 1000 < 2 ^ 53
    case pos =>
      rw [Number.add_intCast (abs_lt.mpr ⟨by omega, hs⟩)]
      exact timeClip_intCast _ (by omega)
    case neg =>
      have hl : (2 : ℚ) ^ 53 ≤ ((now : Int) : ℚ) + ((d * 1000 : Int) : ℚ) := by exact_mod_cast not_lt.mp hs
      rw [if_neg (by omega)]
      exact timeClip_of_large hl
  case neg =>
    have hl : (2 : ℚ) ^ 53 ≤ d * 1000 := by exact_mod_cast not_lt.mp hm
    rw [if_neg (by omega), Number.mul]
    obtain hr | ⟨r, hr, he⟩ := Number.le_round hl
    · rw [hr]
      rfl
    · rw [he]
      exact timeClip_of_large (hr.trans (le_add_of_nonneg_left (Nat.cast_nonneg now)))

end

section

variable (lang : Language) (now : Nat) (draft : JobDraft)

def liveRunAt (delaySeconds : Int) (scheduledAt : Option Time) : Time :=
  let now : Time := now * 1000000
  let delayed := if 0 < delaySeconds then now + wrap64 (delaySeconds * Duration.second) else now
  match scheduledAt with
  | some scheduledAt => if delayed < scheduledAt then scheduledAt else delayed
  | none             => delayed

-- The time that the body of the request has.
def bodyTime : Option Int :=
  if Live.safeTrim draft.scheduledAt ≠ "" then lang.getTime draft.scheduledAt else none

-- A delay is counted in whole seconds and ends within the range of dates, not before the scheduled time. If its
-- nanoseconds overflow, then only a job that is scheduled for the same time is not affected.
structure Delay (seconds : ℚ) : Prop where
  readable  : Readable seconds
  inRange   : now + seconds.num * 1000 ≤ 8640000000000000
  alone     : bodyTime lang draft = none → seconds.num * Duration.second < 2 ^ 63
  scheduled : ∀ t, bodyTime lang draft = some t → t < 253402300800000 ∧ t ≤ now + seconds.num * 1000 ∧
    (seconds.num * Duration.second < 2 ^ 63 ∨ t = now + seconds.num * 1000)

structure OnTime : Prop where
  delayed   : ∀ seconds, lang.number draft.delaySeconds = .finite seconds → 0 < seconds → Delay lang now draft seconds
  undelayed : (∀ seconds, lang.number draft.delaySeconds = .finite seconds → seconds ≤ 0) →
    ∀ t, bodyTime lang draft = some t → lang.getTime (Live.safeTrim draft.scheduledAt) = some t ∧ t < 253402300800000

variable {lang now draft}

theorem wrap64_of_lt {n : Int} (h : 0 ≤ n) (hn : n < 2 ^ 63) : wrap64 n = n := by
  unfold wrap64
  rw [Int.bmod_def]
  omega

theorem wrap64_lt (n : Int) : wrap64 n < 2 ^ 63 := by
  unfold wrap64
  have := @Int.bmod_lt n (2 ^ 64) (by decide)
  omega

theorem liveRunAt_none {d : Int} (hd : 0 < d) :
    (now + d * 1000) * 1000000 = liveRunAt now d none ↔ d * Duration.second < 2 ^ 63 := by
  have hw := @wrap64_of_lt (d * Duration.second)
  have hl := wrap64_lt (d * Duration.second)
  simp only [liveRunAt, if_pos hd]
  simp only [Duration.second, Duration.millisecond] at hw hl ⊢
  omega

theorem liveRunAt_some {d t : Int} (hd : 0 < d) :
    (now + d * 1000) * 1000000 = liveRunAt now d (some (t * 1000000)) ↔
      t ≤ now + d * 1000 ∧ (d * Duration.second < 2 ^ 63 ∨ t = now + d * 1000) := by
  have hw := @wrap64_of_lt (d * Duration.second)
  have hl := wrap64_lt (d * Duration.second)
  have hs : d * Duration.second = d * 1000000000 := rfl
  simp only [liveRunAt, if_pos hd]
  by_cases hc : (now : Int) * 1000000 + wrap64 (d * Duration.second) < t * 1000000
  case pos => rw [if_pos hc]; omega
  case neg => rw [if_neg hc]; omega

theorem decodeTime_eq {t : Int} (h : (now : Int) < t) {s : Time} :
    decodeTime t = some s ↔ t < 253402300800000 ∧ t * 1000000 = s := by
  have hc : -62167219200000 ≤ t := by omega
  simp [decodeTime, hc]

-- The two run times of a delayed job.
theorem delayed_iff {d : Int} (hd : 0 < d) {s : Option Int} (hs : ∀ t, s = some t → (now : Int) < t) :
    (∃ s', s.mapM decodeTime = some s' ∧ (now + d * 1000) * 1000000 = liveRunAt now d s') ↔
    (s = none → d * Duration.second < 2 ^ 63) ∧
    ∀ t, s = some t → t < 253402300800000 ∧ t ≤ now + d * 1000 ∧
      (d * Duration.second < 2 ^ 63 ∨ t = now + d * 1000) := by
  cases s
  case none   =>
    have hm : (none : Option Int).mapM decodeTime = some none := rfl
    simp [hm, liveRunAt_none hd]
  case some t => simp [decodeTime_eq (hs t rfl), and_assoc, liveRunAt_some hd]

-- The two run times of a job that is not delayed.
theorem undelayed_iff {r : Option Int} {s : Option Int} (hs : ∀ t, s = some t → (now : Int) < t) :
    (∃ s', s.mapM decodeTime = some s' ∧ (if s.isSome then r.getD now else (now : Int)) * 1000000 = liveRunAt now 0 s') ↔
    ∀ t, s = some t → r = some t ∧ t < 253402300800000 := by
  cases s
  case none   =>
    have hm : (none : Option Int).mapM decodeTime = some none := rfl
    simp [hm, liveRunAt]
  case some t =>
    have ht := hs t rfl
    have hlt : (now : Int) * 1000000 < t * 1000000 := by omega
    have hl : liveRunAt now 0 (some (t * 1000000)) = t * 1000000 := by
      simp only [liveRunAt, lt_irrefl, if_false]
      exact if_pos hlt
    have hr : r.getD now = t ↔ r = some t := by
      cases r
      case none   => simpa using ht.ne
      case some r => simp
    simp [decodeTime_eq ht, hl, hr, and_comm]

theorem demoRunAt_of_delayed {q : ℚ} (h : lang.number draft.delaySeconds = .finite q) (hq : 0 < q) (hd : q.den = 1) :
    demoRunAt lang now draft =
      if now + q.num * 1000 ≤ 8640000000000000 then some (now + q.num * 1000) else none := by
  have ha : asNumber lang draft.delaySeconds (.finite 0) = .finite q := by simp [asNumber, h, Number.isFinite]
  have hl : (Number.finite 0).lt (.finite q) := by simpa [Number.lt] using hq
  rw [demoRunAt, ha, if_pos hl, ← finite_num hd]
  exact timeClip_delayed now (Rat.num_pos.mpr hq)

theorem demoRunAt_of_undelayed (h : ∀ q, lang.number draft.delaySeconds = .finite q → q ≤ 0) :
    demoRunAt lang now draft = some (if Live.safeTrim draft.scheduledAt ≠ "" then
      (lang.getTime (Live.safeTrim draft.scheduledAt)).getD now else (now : Int)) := by
  rw [demoRunAt, asNumber, if_neg (decodeInt_of_undelayed h).right]

-- A form that is accepted, with a valid time in the future if there is a time at all.
structure Accepted (lang : Language) (now : Nat) (draft : JobDraft) : Prop where
  type        : Live.safeTrim draft.type ≠ ""
  tenant      : Live.safeTrim draft.tenantId ≠ ""
  nonnegative : ¬(lang.number draft.priority).lt (.finite 0)
  limited     : ¬(Number.finite 9).lt (lang.number draft.priority)
  future      : Live.safeTrim draft.scheduledAt ≠ "" → ∃ t, lang.getTime draft.scheduledAt = some t ∧ (now : Int) < t

theorem accepted_of_validateJobForm (h : validateJobForm lang now draft = []) : Accepted lang now draft := by
  simp only [validateJobForm, List.append_eq_nil_iff, ite_eq_right_iff, reduceCtorEq, imp_false, not_or, not_and] at h
  obtain ⟨⟨⟨⟨ht, hn⟩, _⟩, hp⟩, hs⟩ := h
  refine ⟨ht, hn, hp.left, hp.right, fun hb => ?_⟩
  have hf := hs hb
  cases hg : lang.getTime draft.scheduledAt
  case none   => simp [hg] at hf
  case some t => exact ⟨t, rfl, by simpa [hg] using hf⟩

theorem Accepted.bodyTime_lt (h : Accepted lang now draft) {t : Int} (ht : bodyTime lang draft = some t) : now < t := by
  unfold bodyTime at ht
  split at ht
  case isFalse   => cases ht
  case isTrue hb =>
    obtain ⟨t', ht', hl⟩ := h.future hb
    cases ht'.symm.trans ht
    exact hl

theorem Accepted.isSome_bodyTime (h : Accepted lang now draft) :
    (bodyTime lang draft).isSome ↔ Live.safeTrim draft.scheduledAt ≠ "" := by
  unfold bodyTime
  split
  case isTrue hb  =>
    obtain ⟨t, ht, _⟩ := h.future hb
    simp [ht, hb]
  case isFalse hb => simp [hb]

theorem Accepted.runAt_iff (h : Accepted lang now draft) :
    (∃ d s r, decodeInt (((lang.number draft.delaySeconds).orElse (.finite 0)).mathMax (.finite 0)) = some d ∧
      (bodyTime lang draft).mapM decodeTime = some s ∧ demoRunAt lang now draft = some r ∧
      r * 1000000 = liveRunAt now (d.getD 0) s) ↔ OnTime lang now draft := by
  by_cases hp : ∃ q, lang.number draft.delaySeconds = .finite q ∧ 0 < q
  case pos =>
    obtain ⟨q, hq, hq₀⟩ := hp
    have hn : 0 < q.num := Rat.num_pos.mpr hq₀
    rw [hq, Number.orElse_zero, Number.mathMax_finite, max_eq_left hq₀.le]
    constructor
    case mp  =>
      rintro ⟨d, s, r, hd, hs, hr, he⟩
      obtain ⟨hread, rfl⟩ := readable_of_decodeInt hd
      rw [demoRunAt_of_delayed hq hq₀ hread.left] at hr
      split at hr
      case isFalse   => cases hr
      case isTrue hi =>
        cases hr
        have ⟨ha, hsched⟩ := (delayed_iff hn fun _ => h.bodyTime_lt).mp ⟨s, hs, he⟩
        refine ⟨fun q' hq' _ => ?_, fun hu => absurd (hu q hq) (not_le.mpr hq₀)⟩
        cases hq.symm.trans hq'
        exact ⟨hread, hi, ha, hsched⟩
    case mpr =>
      intro ho
      have hd := ho.delayed q hq hq₀
      obtain ⟨s, hs, he⟩ := (delayed_iff hn fun _ => h.bodyTime_lt).mpr ⟨hd.alone, hd.scheduled⟩
      refine ⟨_, s, _, decodeInt_of_readable hd.readable hq₀.le, hs, ?_, he⟩
      rw [demoRunAt_of_delayed hq hq₀ hd.readable.left, if_pos hd.inRange]
  case neg =>
    have hu : ∀ q, lang.number draft.delaySeconds = .finite q → q ≤ 0 := fun q hq => not_lt.mp fun h => hp ⟨q, hq, h⟩
    obtain ⟨⟨d, hd, h₀⟩, _⟩ := decodeInt_of_undelayed hu
    have hr : demoRunAt lang now draft = some (if (bodyTime lang draft).isSome then
        (lang.getTime (Live.safeTrim draft.scheduledAt)).getD now else (now : Int)) := by
      simp only [demoRunAt_of_undelayed hu, h.isSome_bodyTime]
    have hi := undelayed_iff (r := lang.getTime (Live.safeTrim draft.scheduledAt)) fun _ => h.bodyTime_lt
    rw [hr]
    constructor
    case mp  =>
      rintro ⟨d', s, r, hd', hs, hr, he⟩
      cases hd.symm.trans hd'
      cases hr
      rw [h₀] at he
      exact ⟨fun q hq hq₀ => absurd (hu q hq) (not_le.mpr hq₀), fun _ => hi.mp ⟨s, hs, he⟩⟩
    case mpr =>
      intro ho
      obtain ⟨s, hs, he⟩ := hi.mpr (ho.undelayed hu)
      exact ⟨d, s, _, hd, hs, rfl, by rw [h₀]; exact he⟩

-- What a form must be like for the demo and the backend to make the same job of it.
structure Unequivocal (lang : Language) (now : Nat) (draft : JobDraft) : Prop where
  priority            : lang.number draft.priority ≠ .finite 0 ∧
    ∀ q, lang.number draft.priority = .finite q → q.den = 1
  maxAttempts         : lang.number draft.maxAttempts ≠ .finite 0 ∧ lang.number draft.maxAttempts ≠ .infinite true ∧
    ∀ q, lang.number draft.maxAttempts = .finite q → 1 < q → Readable q
  timeoutSeconds      : ∃ q, lang.number draft.timeoutSeconds = .finite q ∧ (0 < q → Readable q)
  dedupeWindowSeconds : ∀ q, lang.number draft.dedupeWindowSeconds = .finite q → 0 < q → q < 86400 → q.den = 1
  onTime              : OnTime lang now draft

variable {payload : Json} {id id' : String} {body : RequestBody} {req : JobRequest} {demo : Job}

-- What is read from a body.
structure Decoded (body : RequestBody) (req : JobRequest) : Prop where
  type                : req.type = body.type
  queue               : req.queue = body.queue
  tenantID            : req.tenantID = body.tenantId
  priority            : decodeInt body.priority = some req.priority
  maxAttempts         : ∃ n, decodeInt body.maxAttempts = some n ∧ req.maxAttempts = n.getD 0
  delaySeconds        : ∃ n, decodeInt body.delaySeconds = some n ∧ req.delaySeconds = n.getD 0
  scheduledAt         : body.scheduledAt.mapM decodeTime = some req.scheduledAt
  timeoutSeconds      : ∃ n, decodeInt body.timeoutSeconds = some n ∧ req.timeoutSeconds = n.getD 0
  schemaVersion       : ∃ n, decodeInt body.schemaVersion = some n ∧ req.schemaVersion = n.getD 0
  dedupeWindowSeconds : ∃ n, decodeInt body.dedupeWindowSeconds = some n ∧ req.dedupeWindowSeconds = n.getD 0
  dependencies        : req.dependencies = body.dependencies.getD []

theorem decoded_of_decode (h : decode lang body = some req) : Decoded body req := by
  simp only [decode, Option.bind_eq_bind, Option.bind_eq_some_iff, Option.some.injEq] at h
  obtain ⟨p, hp, a, ha, d, hd, s, hs, t, ht, v, hv, w, hw, rfl⟩ := h
  exact ⟨rfl, rfl, rfl, hp, ⟨a, ha, rfl⟩, ⟨d, hd, rfl⟩, hs, ⟨t, ht, rfl⟩, ⟨v, hv, rfl⟩, ⟨w, hw, rfl⟩, rfl⟩

theorem exists_decode {p a d t v w : Option Int} {s : Option Time} (hp : decodeInt body.priority = some p)
    (ha : decodeInt body.maxAttempts = some a) (hd : decodeInt body.delaySeconds = some d)
    (hs : body.scheduledAt.mapM decodeTime = some s) (ht : decodeInt body.timeoutSeconds = some t)
    (hv : decodeInt body.schemaVersion = some v) (hw : decodeInt body.dedupeWindowSeconds = some w) :
    ∃ req, decode lang body = some req := by
  simp [decode, hp, ha, hd, hs, ht, hv, hw]

-- What the demo makes of a form.
structure Drafted (lang : Language) (now : Nat) (draft : JobDraft) (demo : Job) : Prop where
  type           : demo.type = orDefault (Live.safeTrim draft.type) "email.send"
  queue          : demo.queue = orDefault (Live.safeTrim draft.queue) "default"
  tenantId       : demo.tenantId = orDefault (Live.safeTrim draft.tenantId) "default"
  priority       : demo.priority = clamp (asNumber lang draft.priority (.finite 5)) (.finite 0) (.finite 9)
  maxAttempts    : demo.maxAttempts = (asNumber lang draft.maxAttempts (.finite 5)).mathMax (.finite 1)
  timeoutSeconds : demo.timeoutSeconds = (asNumber lang draft.timeoutSeconds (.finite 60)).mathMax (.finite 0)
  runAt          : demoRunAt lang now draft = some demo.runAt
  state          : demo.state =
    if 0 < (parseDependencyIds draft.dependencies).length then .blocked
    else if now < demo.runAt then .scheduled
    else .queued

theorem createJobFromDraft_eq : createJobFromDraft lang now draft payload id = some demo →
    Drafted lang now draft demo := by
  intro h
  obtain ⟨r, hr, rfl⟩ := Option.map_eq_some_iff.mp h
  constructor
  case runAt => exact hr
  all_goals dsimp only

theorem exists_createJobFromDraft {r : Int} (h : demoRunAt lang now draft = some r) :
    ∃ demo, createJobFromDraft lang now draft payload id = some demo :=
  ⟨_, Option.map_eq_some_iff.mpr ⟨r, h, rfl⟩⟩

theorem decodeInt_mathMax {x : Number} {c : ℚ} {n : Option Int} (h : decodeInt (x.mathMax (.finite c)) = some n)
    (hc : 0 ≤ c) : 0 ≤ n.getD 0 := by
  cases x
  case nan        => cases h; exact le_rfl
  case infinite s =>
    cases s
    case false => cases h; exact le_rfl
    case true  => exact (readable_of_decodeInt h).right ▸ Rat.num_nonneg.mpr hc
  case finite q   =>
    rw [Number.mathMax_finite] at h
    exact (readable_of_decodeInt h).right ▸ Rat.num_nonneg.mpr (le_max_of_le_right hc)

theorem decodeInt_clamp {x : Number} {b : Nat} {n : Option Int}
    (h : decodeInt (clamp x (.finite 0) (.finite b)) = some n) : ∀ m, n = some m → 0 ≤ m ∧ m ≤ b := by
  have hf {q : ℚ} (hq : decodeInt (.finite q) = some n) (h₀ : 0 ≤ q) (hb : q ≤ b) : ∀ m, n = some m → 0 ≤ m ∧ m ≤ b := by
    obtain ⟨hr, rfl⟩ := readable_of_decodeInt hq
    rintro m hm
    cases hm
    refine ⟨Rat.num_nonneg.mpr h₀, ?_⟩
    rw [← Rat.coe_int_num_of_den_eq_one hr.left] at hb
    exact_mod_cast hb
  cases x
  case nan        => cases h; nofun
  case infinite s =>
    cases s
    case false => exact hf h (Nat.cast_nonneg b) le_rfl
    case true  =>
      have hc : clamp (.infinite true) (.finite 0) (.finite b) = .finite (min 0 b) := Number.mathMin_finite
      rw [hc] at h
      exact hf h (le_min le_rfl (Nat.cast_nonneg b)) (min_le_right _ _)
  case finite q   =>
    rw [clamp_finite] at h
    exact hf h (le_min (le_max_right _ _) (Nat.cast_nonneg b)) (min_le_right _ _)

-- What the form posts passes the checks of the backend.
theorem Accepted.validate (h : Accepted lang now draft) (hr : Decoded (requestBody lang draft payload) req) :
    req.validate = .ok () := by
  obtain ⟨a, ha, ha'⟩ := hr.maxAttempts
  obtain ⟨t, ht, ht'⟩ := hr.timeoutSeconds
  obtain ⟨v, hv, hv'⟩ := hr.schemaVersion
  obtain ⟨w, hw, hw'⟩ := hr.dedupeWindowSeconds
  have htype : req.type ≠ "" := hr.type ▸ h.type
  have hpriority : ¬(req.priority.any fun p => p < 0 ∨ 9 < p) := by
    have hc := decodeInt_clamp (b := 9) hr.priority
    cases hp : req.priority
    case none   => nofun
    case some p =>
      have hm := hc p hp
      simp only [Option.any_some, decide_eq_true_eq]
      omega
  have hattempts : ¬req.maxAttempts < 0 := by
    rw [ha']
    exact not_lt.mpr (decodeInt_mathMax ha zero_le_one)
  have htimeout : ¬req.timeoutSeconds < 0 := by
    rw [ht']
    exact not_lt.mpr (decodeInt_mathMax ht le_rfl)
  have hdedupe : ¬req.dedupeWindowSeconds < 0 := by
    rw [hw']
    have hc := decodeInt_clamp (b := 86400) hw
    cases w
    case none   => decide
    case some w => exact not_lt.mpr (hc w rfl).left
  have hschema : ¬req.schemaVersion < 0 := by
    cases hv
    rw [hv']
    decide
  simp only [JobRequest.validate, htype, hpriority, hattempts, htimeout, hdedupe, hschema, if_false]
  rfl

theorem buildJob_runAt (now : Nat) (req : JobRequest) (id : String) :
    (buildJob (now * 1000000) req id).runAt = liveRunAt now req.delaySeconds req.scheduledAt :=
  rfl

theorem buildJob_maxAttempts (now : Time) (req : JobRequest) (id : String) :
    (buildJob now req id).maxAttempts = if req.maxAttempts ≤ 0 then 5 else req.maxAttempts :=
  rfl

theorem buildJob_queue (now : Time) (req : JobRequest) (id : String) :
    (buildJob now req id).queue = normalizeQueue req.queue :=
  rfl

theorem buildJob_tenantID (now : Time) (req : JobRequest) (id : String) :
    (buildJob now req id).tenantID = tenantOrDefault req.tenantID :=
  rfl

theorem orDefault_ne (value : String) : orDefault value "default" ≠ "" := by
  unfold orDefault
  split
  case isTrue    => decide
  case isFalse h => exact h

theorem requestBody_queue :
    (requestBody lang draft payload).queue = orDefault (Live.safeTrim draft.queue) "default" := by
  simp only [requestBody]

theorem requestBody_tenantId :
    (requestBody lang draft payload).tenantId = orDefault (Live.safeTrim draft.tenantId) "default" := by
  simp only [requestBody]

theorem requestBody_scheduledAt : (requestBody lang draft payload).scheduledAt = bodyTime lang draft := by
  simp only [requestBody, bodyTime]

theorem Decoded.mapM_bodyTime (h : Decoded (requestBody lang draft payload) req) :
    (bodyTime lang draft).mapM decodeTime = some req.scheduledAt :=
  requestBody_scheduledAt ▸ h.scheduledAt

theorem dependencies_length (lang : Language) (draft : JobDraft) (payload : Json) :
    ((requestBody lang draft payload).dependencies.getD []).length = (parseDependencyIds draft.dependencies).length := by
  simp only [requestBody]
  split
  case isTrue    => rw [Option.getD_some]
  case isFalse h => exact (Nat.eq_zero_of_not_pos h).symm

-- The demo and the backend make the same job of a form if and only if the form is unequivocal.
theorem createJobFromDraft_agrees_iff (h : validateJobForm lang now draft = []) :
    (∃ demo req, createJobFromDraft lang now draft payload id = some demo ∧
      decode lang (requestBody lang draft payload) = some req ∧ req.validate = .ok () ∧
      Agrees demo (buildJob (now * 1000000) req id')) ↔ Unequivocal lang now draft := by
  have hacc := accepted_of_validateJobForm h
  constructor
  case mp  =>
    rintro ⟨demo, req, hdemo, hreq, _, hagree⟩
    have hd := createJobFromDraft_eq hdemo
    have hr := decoded_of_decode hreq
    constructor
    case priority            =>
      exact (priority_iff hacc.nonnegative hacc.limited).mp
        ⟨req.priority, hr.priority, hd.priority.symm.trans hagree.priority⟩
    case maxAttempts         =>
      obtain ⟨n, hn, he⟩ := hr.maxAttempts
      exact maxAttempts_iff.mp ⟨n, hn, he ▸ hd.maxAttempts.symm.trans hagree.maxAttempts⟩
    case timeoutSeconds      =>
      obtain ⟨n, hn, he⟩ := hr.timeoutSeconds
      exact timeout_iff.mp ⟨n, hn, he ▸ hd.timeoutSeconds.symm.trans hagree.timeoutSeconds⟩
    case dedupeWindowSeconds =>
      obtain ⟨n, hn, _⟩ := hr.dedupeWindowSeconds
      exact dedupe_iff.mp ⟨n, hn⟩
    case onTime              =>
      obtain ⟨n, hn, he⟩ := hr.delaySeconds
      exact hacc.runAt_iff.mp ⟨n, _, _, hn, hr.mapM_bodyTime, hd.runAt, he ▸ hagree.runAt⟩
  case mpr =>
    intro hu
    obtain ⟨p, hp, hpe⟩ := (priority_iff hacc.nonnegative hacc.limited).mpr hu.priority
    obtain ⟨a, ha, hae⟩ := maxAttempts_iff.mpr hu.maxAttempts
    obtain ⟨t, ht, hte⟩ := timeout_iff.mpr hu.timeoutSeconds
    obtain ⟨w, hw⟩ := dedupe_iff.mpr hu.dedupeWindowSeconds
    obtain ⟨d, s, r, hd, hs, hr, hre⟩ := hacc.runAt_iff.mpr hu.onTime
    obtain ⟨req, hreq⟩ : ∃ req, decode lang (requestBody lang draft payload) = some req :=
      exists_decode hp ha hd (requestBody_scheduledAt ▸ hs) ht rfl hw
    obtain ⟨demo, hdemo⟩ : ∃ demo, createJobFromDraft lang now draft payload id = some demo :=
      exists_createJobFromDraft hr
    have hD := createJobFromDraft_eq hdemo
    have hR := decoded_of_decode hreq
    refine ⟨demo, req, hdemo, hreq, hacc.validate hR, ?_⟩
    have hrun : demo.runAt * 1000000 = (buildJob (now * 1000000) req id').runAt := by
      obtain ⟨n, hn, he⟩ := hR.delaySeconds
      rw [buildJob_runAt, he]
      cases hr.symm.trans hD.runAt
      cases hd.symm.trans hn
      cases hs.symm.trans hR.mapM_bodyTime
      exact hre
    constructor
    case runAt          => exact hrun
    case type           => exact hD.type.trans <| (if_neg hacc.type).trans hR.type.symm
    case queue          =>
      rw [hD.queue, buildJob_queue, hR.queue, requestBody_queue, normalizeQueue, if_neg (orDefault_ne _)]
    case tenant         =>
      rw [hD.tenantId, buildJob_tenantID, hR.tenantID, requestBody_tenantId, tenantOrDefault, if_neg (orDefault_ne _)]
    case priority       =>
      cases hp.symm.trans hR.priority
      exact hD.priority.trans hpe
    case maxAttempts    =>
      obtain ⟨n, hn, he⟩ := hR.maxAttempts
      cases ha.symm.trans hn
      rw [hD.maxAttempts, buildJob_maxAttempts, he]
      exact hae
    case timeoutSeconds =>
      obtain ⟨n, hn, he⟩ := hR.timeoutSeconds
      cases ht.symm.trans hn
      exact hD.timeoutSeconds.trans <| hte.trans <| congrArg (Number.finite ·) (congrArg Int.cast he.symm)
    case state          =>
      have hlt : (now : Int) * 1000000 < (buildJob (now * 1000000) req id').runAt ↔ (now : Int) < demo.runAt := by
        rw [← hrun]
        omega
      rw [hD.state, buildJob_state_eq, hR.dependencies, dependencies_length]
      simp only [hlt]

end

namespace Sample

def language : Language where
  number s      := if s = "5" then .finite 5 else if s = "0" then .finite 0 else .nan
  getTime _     := none
  stringify _   := "\x7b\x7d"
  syntaxError _ := "Unexpected end of JSON input"

def draft (priority : String) : JobDraft where
  type                := "email.send"
  queue               := "default"
  tenantId            := "tenant-a"
  priority            := priority
  maxAttempts         := "5"
  timeoutSeconds      := "0"
  delaySeconds        := "0"
  scheduledAt         := ""
  workflowId          := ""
  dependencies        := ""
  idempotencyKey      := ""
  dedupeWindowSeconds := "0"
  payload             := "\x7b\x7d"

theorem createJobFromDraft_agrees_iff_sample :
    (∃ demo req, createJobFromDraft language 1767225600000 (draft "5") (.object []) "job-1" = some demo ∧
      decode language (requestBody language (draft "5") (.object [])) = some req ∧ req.validate = .ok () ∧
      Agrees demo (buildJob ((1767225600000 : Nat) * 1000000) req "job-2")) ↔
    Unequivocal language 1767225600000 (draft "5") :=
  createJobFromDraft_agrees_iff (by decide)

-- The form takes the lowest priority for none.
theorem not_agrees_priority : validateJobForm language 1767225600000 (draft "0") = [] ∧
    ¬∃ demo req, createJobFromDraft language 1767225600000 (draft "0") (.object []) "job-1" = some demo ∧
      decode language (requestBody language (draft "0") (.object [])) = some req ∧ req.validate = .ok () ∧
      Agrees demo (buildJob ((1767225600000 : Nat) * 1000000) req "job-2") := by
  refine ⟨by decide, ?_⟩
  rintro ⟨demo, req, hdemo, hreq, _, hagree⟩
  have hd := (createJobFromDraft_eq hdemo).priority
  have hr := (decoded_of_decode hreq).priority
  have hp := (priority_iff (x := language.number "0") (by decide) (by decide)).mp
    ⟨req.priority, hr, hd.symm.trans hagree.priority⟩
  exact hp.left rfl

end Sample
end JobPlatform.Dashboard
