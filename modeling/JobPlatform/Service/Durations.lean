import JobPlatform.Service.Manager
import JobPlatform.Worker.Runtime

namespace JobPlatform

section

variable {n : Int}

theorem wrap64_lt (n : Int) : wrap64 n < 2 ^ 63 :=
  Int.bmod_lt (by decide)

theorem wrap64_eq (hn : 0 ≤ n) (h : n < 2 ^ 63) : wrap64 n = n :=
  Int.bmod_eq_of_le (by omega) (by omega)

-- A duration that is too long becomes a shorter one.
theorem wrap64_eq_iff (hn : 0 ≤ n) : wrap64 n = n ↔ n < 2 ^ 63 :=
  ⟨fun h => h ▸ wrap64_lt n, wrap64_eq hn⟩

end

-- The deadline of the context in which the handler of a job is called.
def Runtime.deadline (job : Job) (now : Time) : Option Time :=
  if 0 < job.timeoutSeconds then some (now + wrap64 (job.timeoutSeconds * Duration.second)) else none

namespace JobRequest

-- The time at which a job is to run that is requested now.
def dueAt (req : JobRequest) (now : Time) : Time :=
  max (max now (now + req.delaySeconds * Duration.second)) (req.scheduledAt.getD now)

-- The durations fit into 64 bits, except for a delay that ends before the job is scheduled anyway.
structure Fits (req : JobRequest) (now : Time) : Prop where
  delay   : req.delaySeconds * Duration.second < 2 ^ 63 ∨
    ∃ t, req.scheduledAt = some t ∧ now + req.delaySeconds * Duration.second ≤ t
  window  : req.idempotencyKey ≠ "" → req.dedupeWindowSeconds * Duration.second < 2 ^ 63
  timeout : req.timeoutSeconds * Duration.second < 2 ^ 63

end JobRequest

namespace Manager

variable {m : Manager} {req : JobRequest} {id : JobID} {now started : Time}

-- The job runs when it is to run, its record lasts as long as requested, and so does its handler.
structure Honours (m : Manager) (req : JobRequest) (id : JobID) (now started : Time) : Prop where
  delay   : (buildJob now req id).runAt = req.dueAt now
  window  : req.idempotencyKey ≠ "" → 0 < req.dedupeWindowSeconds →
    m.dedupeWindow req = req.dedupeWindowSeconds * Duration.second ∧
    (Postgres.newIdempotencyRecord (buildJob now req id) (m.dedupeWindow req)).expiresAt =
      now + req.dedupeWindowSeconds * Duration.second
  timeout : 0 < req.timeoutSeconds → Runtime.deadline (buildJob now req id) started =
    some (started + req.timeoutSeconds * Duration.second)

theorem buildJob_runAt : (buildJob now req id).runAt =
    let delayed := if 0 < req.delaySeconds then now + wrap64 (req.delaySeconds * Duration.second) else now
    max delayed (req.scheduledAt.getD delayed) := by
  unfold buildJob
  dsimp only
  generalize (if 0 < req.delaySeconds then now + wrap64 (req.delaySeconds * Duration.second) else now) = delayed
  cases req.scheduledAt
  case none   => exact (max_self _).symm
  case some t =>
    dsimp only [Option.getD_some]
    split
    case isTrue h  => exact (max_eq_right h.le).symm
    case isFalse h => exact (max_eq_left (not_lt.mp h)).symm

-- A delay that wraps around ends too early, unless the job is scheduled for later.
theorem runAt_eq_iff : (buildJob now req id).runAt = req.dueAt now ↔
    req.delaySeconds * Duration.second < 2 ^ 63 ∨
    ∃ t, req.scheduledAt = some t ∧ now + req.delaySeconds * Duration.second ≤ t := by
  have key {d now delayed : Int} {scheduledAt : Option Int} (hd : delayed = if 0 < d then now + wrap64 d else now) :
      max delayed (scheduledAt.getD delayed) = max (max now (now + d)) (scheduledAt.getD now) ↔
      d < 2 ^ 63 ∨ ∃ t, scheduledAt = some t ∧ now + d ≤ t := by
    have hw := wrap64_lt d
    have hf := @wrap64_eq d
    generalize wrap64 d = x at hw hf hd
    split at hd <;> cases scheduledAt <;> simp <;> omega
  have hp : 0 < req.delaySeconds ↔ 0 < req.delaySeconds * Duration.second :=
    (mul_pos_iff_of_pos_right (by decide)).symm
  simp only [buildJob_runAt, JobRequest.dueAt, hp]
  exact key rfl

theorem dedupeWindow_eq_iff (h : 0 < req.dedupeWindowSeconds) :
    m.dedupeWindow req = req.dedupeWindowSeconds * Duration.second ↔
    req.dedupeWindowSeconds * Duration.second < 2 ^ 63 := by
  rw [dedupeWindow, if_pos h, wrap64_eq_iff (mul_pos h (by decide)).le]

theorem expiresAt_eq (h : 0 < req.dedupeWindowSeconds)
    (hw : m.dedupeWindow req = req.dedupeWindowSeconds * Duration.second) :
    (Postgres.newIdempotencyRecord (buildJob now req id) (m.dedupeWindow req)).expiresAt =
      now + req.dedupeWindowSeconds * Duration.second := by
  have hp : ¬req.dedupeWindowSeconds * Duration.second ≤ 0 := not_le.mpr (mul_pos h (by decide))
  rw [hw, Postgres.newIdempotencyRecord, if_neg hp]
  rfl

theorem deadline_eq_iff (h : 0 < req.timeoutSeconds) : Runtime.deadline (buildJob now req id) started =
    some (started + req.timeoutSeconds * Duration.second) ↔ req.timeoutSeconds * Duration.second < 2 ^ 63 := by
  have ht : (buildJob now req id).timeoutSeconds = req.timeoutSeconds := rfl
  rw [Runtime.deadline, ht, if_pos h, Option.some_inj, add_right_inj, wrap64_eq_iff (mul_pos h (by decide)).le]

-- The durations are honoured exactly if they do not overflow.
theorem honours_iff : Honours m req id now started ↔ req.Fits now := by
  have hn {n : Int} (h : ¬0 < n) : n * Duration.second < 2 ^ 63 :=
    (mul_nonpos_of_nonpos_of_nonneg (not_lt.mp h) (by decide)).trans_lt (by decide)
  constructor
  case mp  =>
    intro h
    refine ⟨runAt_eq_iff.mp h.delay, fun hk => ?_, ?_⟩
    · by_cases hw : 0 < req.dedupeWindowSeconds
      case pos => exact (dedupeWindow_eq_iff hw).mp (h.window hk hw).left
      case neg => exact hn hw
    · by_cases ht : 0 < req.timeoutSeconds
      case pos => exact (deadline_eq_iff ht).mp (h.timeout ht)
      case neg => exact hn ht
  case mpr =>
    intro h
    refine ⟨runAt_eq_iff.mpr h.delay, fun hk hw => ?_, fun ht => (deadline_eq_iff ht).mpr h.timeout⟩
    have he : m.dedupeWindow req = _ := (dedupeWindow_eq_iff hw).mpr (h.window hk)
    exact ⟨he, expiresAt_eq hw he⟩

-- A job that is to run in 292 years is queued at once, as its delay wraps around.
theorem not_honours_of_delay :
    let req := { JobRequest.plain "email.send" with delaySeconds := 9223372037 }
    req.validate = .ok () ∧ (buildJob 1700000000000000000 req "job-1").state = .queued ∧
    ¬Honours .sample req "job-1" 1700000000000000000 1700000000000000000 := by
  refine ⟨rfl, by decide +kernel, fun h => ?_⟩
  have h := h.delay
  revert h
  decide +kernel

end Manager
end JobPlatform
