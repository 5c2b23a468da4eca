import JobPlatform.Store.Effects
import JobPlatform.System.Quiet
import JobPlatform.System.Summary

namespace JobPlatform

-- Both stores keep the same about the job, or neither of them knows it.
def Agree (j : JobID) (w : World) : Prop :=
  w.redis.summaries j = w.postgres.summaries j

instance {j : JobID} {w : World} : Decidable (Agree j w) :=
  inferInstanceAs (Decidable (_ = _))

-- Each hash and each row is stored under its own identifier.
def Keyed (w : World) : Prop :=
  ∀ j s, w.redis.summaries j = some s ∨ w.postgres.summaries j = some s → s.id = j

structure SameSummaries (w w' : World) : Prop where
  redis    : w'.redis.summaries = w.redis.summaries
  postgres : w'.postgres.summaries = w.postgres.summaries

instance : Std.Refl SameSummaries where
  refl _ := ⟨rfl, rfl⟩

instance : IsTrans World SameSummaries where
  trans _ _ _ h h' := ⟨h'.redis.trans h.redis, h'.postgres.trans h.postgres⟩

-- The calls which change nothing that is kept about a job.
def Call.isQuiet : Call → Bool
  | now                             => true
  | broker (.loadJob ..)            => true
  | broker (.heartbeat ..)          => true
  | repo (.getJob ..)               => true
  | repo (.updateJobHeartbeat ..)   => true
  | repo (.listDependencies ..)     => true
  | repo (.listDependentJobs ..)    => true
  | repo (.upsertJobAttempt ..)     => true
  | repo (.upsertDeadLetter ..)     => true
  | repo (.deleteDeadLetters ..)    => true
  | repo (.updateIdempotencyOutcome ..) => true
  | limiter ..                      => true
  | _                               => false

theorem Call.isQuiet_of_isTame (c : Call) (h : c.isTame) : c.isQuiet := by
  cases c
  case broker c => cases c <;> first | rfl | cases h
  case repo c   => cases c <;> first | rfl | cases h
  all_goals first | rfl | cases h

variable {w w' : World} {c : Call} {j : JobID} {job : Job}

theorem World.exec_same (h : c.isQuiet) : SameSummaries w (w.exec c).1 := by
  cases c
  case broker c =>
    cases c <;> cases h
    case loadJob   => exact ⟨rfl, rfl⟩
    case heartbeat => exact ⟨RedisBroker.heartbeatLua_summaries, rfl⟩
  case repo c =>
    cases c <;> cases h
    all_goals exact ⟨rfl, by simp [Postgres.exec]⟩
  all_goals exact ⟨rfl, rfl⟩

theorem World.exec_quiet {r : c.Resp} (he : w.exec c = (w', r)) (h : c.isQuiet) : SameSummaries w w' := by
  have hs := World.exec_same (w := w) h
  rwa [he] at hs

theorem quiet_call {α : Type} {k : c.Resp → Program α} (h : c.isQuiet)
    (hk : ∀ r, (k r).Quiet unguarded SameSummaries) : (Prog.call c k).Quiet unguarded SameSummaries := by
  refine ⟨?_, fun _ => World.exec_same h, hk⟩
  cases c <;> first | rfl | cases h

instance : Tolerates SameSummaries where
  tame {c} _ h := World.exec_same <| c.isQuiet_of_isTame h

-- The world keeps a job in agreement, and all of them under their own identifiers.
structure Good (j : JobID) (w : World) : Prop where
  keyed : Keyed w
  agree : Agree j w

namespace Good

theorem env (h : Good j w) (hw : SameSummaries w w') : Good j w' where
  keyed i s hs := h.keyed i s <| by rwa [hw.redis, hw.postgres] at hs
  agree        := by rw [Agree, hw.redis, hw.postgres, h.agree]

theorem quiet (h : Good j w) (hc : c.isQuiet) : Good j (w.exec c).1 :=
  h.env (World.exec_same hc)

-- The stores change the same job. If it is the one in question, they do so in the same way.
theorem change {i : JobID} {f g : Summary → Summary} (h : Good j w)
    (hr : ∀ k, w'.redis.summaries k = if k = i then (w.redis.summaries k).map f else w.redis.summaries k)
    (hp : ∀ k, w'.postgres.summaries k =
      if k = i then (w.postgres.summaries k).map g else w.postgres.summaries k)
    (hf : ∀ s, (f s).id = s.id) (hg : ∀ s, (g s).id = s.id)
    (hj : j = i → ∀ s, w.postgres.summaries j = some s → f s = g s) : Good j w' where
  agree := by
    rw [Agree, hr, hp, h.agree]
    split
    case isFalse   => rfl
    case isTrue he => exact Option.map_congr (hj he)
  keyed := by
    intro k s hs
    rw [hr, hp] at hs
    split at hs
    case isFalse => exact h.keyed k s hs
    case isTrue  =>
      simp only [Option.map_eq_some_iff] at hs
      match hs with
      | .inl ⟨s', hs, he⟩ => rw [← he, hf, h.keyed k s' (.inl hs)]
      | .inr ⟨s', hs, he⟩ => rw [← he, hg, h.keyed k s' (.inr hs)]

-- Both stores take over the summary of a job that is known to the database.
theorem replace (job : Job) (h : Good j w) (hj : (w.postgres.summaries job.id).isSome)
    (hr : ∀ k, w'.redis.summaries k = if k = job.id then some job.summary else w.redis.summaries k)
    (hp : ∀ k, w'.postgres.summaries k =
      if k = job.id then (w.postgres.summaries k).map ({ job.summary with id := ·.id })
      else w.postgres.summaries k) : Good j w' := by
  have ⟨s, hs⟩ := Option.isSome_iff_exists.mp hj
  have hi : ({ job.summary with id := s.id } : Summary) = job.summary := by
    rw [h.keyed _ s (.inr hs)]
    rfl
  have hp' (k) : w'.postgres.summaries k =
      if k = job.id then some job.summary else w.postgres.summaries k := by
    rw [hp]
    split
    case isTrue hk => simp [hk, hs, hi]
    case isFalse   => rfl
  constructor
  case agree => rw [Agree, hr, hp', h.agree]
  case keyed =>
    intro k s hs
    rw [hr, hp'] at hs
    split at hs
    case isTrue hk  =>
      have hs : job.summary = s := Option.some.inj <| or_self_iff.mp hs
      rw [← hs, hk]
      rfl
    case isFalse hk => exact h.keyed k s hs

-- Only the database changes a job, but not the one in question.
theorem rewrite {i : JobID} {g : Summary → Summary} (h : Good j w)
    (hr : w'.redis.summaries = w.redis.summaries)
    (hp : ∀ k, w'.postgres.summaries k =
      if k = i then (w.postgres.summaries k).map g else w.postgres.summaries k)
    (hg : ∀ s, (g s).id = s.id) (hj : j = i → ∀ s, w.postgres.summaries j = some s → s = g s) : Good j w' :=
  h.change (f := fun s => s) (by simp [hr]) hp (fun _ => rfl) hg hj

end Good

-- The rows are stored under their own identifiers.
def RowsKeyed (w : World) : Prop :=
  ∀ j s, w.postgres.summaries j = some s → s.id = j

theorem Good.rowsKeyed (h : Good j w) : RowsKeyed w :=
  fun k s hs => h.keyed k s (.inr hs)

theorem RowsKeyed.env (h : RowsKeyed w) (hw : SameSummaries w w') : RowsKeyed w' :=
  fun k s hs => h k s (hw.postgres ▸ hs)

theorem Agree.env (h : Agree j w) (hw : SameSummaries w w') : Agree j w' := by
  rw [Agree, hw.redis, hw.postgres, h]

theorem World.exec_getJob {jobID : JobID} (hk : RowsKeyed w)
    (h : w.exec (.repo (.getJob jobID)) = (w', .ok job)) :
    SameSummaries w w' ∧ job.id = jobID ∧ w.postgres.summaries jobID = some job.summary := by
  have hw : SameSummaries w (w.exec (.repo (.getJob jobID))).1 := World.exec_same rfl
  have hj : w.postgres.getJob jobID = .ok job := congrArg Prod.snd h
  rw [h] at hw
  unfold Postgres.getJob at hj
  split at hj
  case h_2 => cases hj
  case h_1 job' hr =>
    cases hj
    have hs : w.postgres.summaries jobID = some job.summary := by simp [Postgres.summaries, hr]
    exact ⟨hw, hk jobID job.summary hs, hs⟩

theorem World.exec_getJob_error {jobID : JobID} {e : Error}
    (h : w.exec (.repo (.getJob jobID)) = (w', .error e)) :
    SameSummaries w w' ∧ w.postgres.summaries jobID = none := by
  have hw : SameSummaries w (w.exec (.repo (.getJob jobID))).1 := World.exec_same rfl
  have hj : w.postgres.getJob jobID = .error e := congrArg Prod.snd h
  rw [h] at hw
  unfold Postgres.getJob at hj
  split at hj
  case h_1 hr => cases hj
  case h_2 hr => exact ⟨hw, by simp [Postgres.summaries, hr]⟩

theorem World.exec_loadJob {jobID : JobID} (h : w.exec (.broker (.loadJob jobID)) = (w', .ok job)) :
    w.redis.summaries jobID = some job.summary := by
  have hl : RedisBroker.loadJob jobID w.redis = .ok job := congrArg Prod.snd h
  unfold RedisBroker.loadJob at hl
  split at hl
  case h_1      => cases hl
  case h_2 h hj =>
    cases hl
    simp [Redis.summaries, hj]

theorem World.exec_loadJob_error {jobID : JobID} {e : Error}
    (h : w.exec (.broker (.loadJob jobID)) = (w', .error e)) : w.redis.summaries jobID = none := by
  have hl : RedisBroker.loadJob jobID w.redis = .error e := congrArg Prod.snd h
  unfold RedisBroker.loadJob at hl
  split at hl
  case h_1 hj => simp [Redis.summaries, hj]
  case h_2    => cases hl

-- A call that ends the lease of a job is rejected, or it changes the summary of the job.
def EndsLease (jobID : JobID) (g : Summary → Summary) (w w' : World) : Bool → Prop
  | false => SameSummaries w w'
  | true  => w'.postgres.summaries = w.postgres.summaries ∧ ∀ k, w'.redis.summaries k =
      if k = jobID then (w.redis.summaries k).map g else w.redis.summaries k

section

variable {leaseToken : Token} {b : Bool} {g : Summary → Summary}

theorem EndsLease.intro (hp : w'.postgres = w.postgres) (hr : ∀ k, w'.redis.summaries k =
      if k = job.id ∧ b then (w.redis.summaries k).map g else w.redis.summaries k) :
    EndsLease job.id g w w' b := by
  cases b
  case false => exact ⟨funext fun k => by simpa using hr k, by rw [hp]⟩
  case true  => exact ⟨by rw [hp], fun k => by simpa using hr k⟩

theorem World.exec_complete {result : String} {finishedAt : Time}
    (h : w.exec (.broker (.complete job leaseToken result finishedAt)) = (w', .ok b)) :
    EndsLease job.id ({ · with state := .completed }) w w' b := by
  cases h
  exact .intro rfl fun k => RedisBroker.completeLua_summaries

theorem World.exec_retry {errMessage : String} {retryAt failedAt : Time}
    (h : w.exec (.broker (.fail job leaseToken errMessage (some retryAt) failedAt)) = (w', .ok b)) :
    EndsLease job.id ({ · with state := .retrying, runAt := retryAt.unixMilli }) w w' b := by
  cases h
  exact .intro rfl fun k => RedisBroker.failLua_some_summaries

theorem World.exec_fail {errMessage : String} {failedAt : Time}
    (h : w.exec (.broker (.fail job leaseToken errMessage none failedAt)) = (w', .ok b)) :
    EndsLease job.id ({ · with state := .failed }) w w' b := by
  cases h
  exact .intro rfl fun k => RedisBroker.failLua_none_summaries

theorem World.exec_requeueThrottled {retryAt now : Time} {reason : String}
    (h : w.exec (.broker (.requeueThrottled job leaseToken retryAt reason now)) = (w', .ok b)) :
    EndsLease job.id ({ · with state := .throttled, runAt := retryAt.unixMilli }) w w' b := by
  cases h
  exact .intro rfl fun k => RedisBroker.throttleLua_summaries

-- The database changes the summary of a job.
def Marks (jobID : JobID) (g : Summary → Summary) (w w' : World) : Prop :=
  w'.redis = w.redis ∧ ∀ k, w'.postgres.summaries k =
    if k = jobID then (w.postgres.summaries k).map g else w.postgres.summaries k

namespace World

theorem marks_queued (job : Job) :
    Marks job.id ({ job.summary with id := ·.id }) w (w.exec (.repo (.markJobQueued job))).1 :=
  ⟨rfl, fun _ => Postgres.markJobQueued_summaries⟩

theorem marks_active (job : Job) :
    Marks job.id ({ job.summary with id := ·.id }) w (w.exec (.repo (.markJobActive job))).1 :=
  ⟨rfl, fun _ => Postgres.markJobActive_summaries⟩

theorem marks_completed (job : Job) :
    Marks job.id ({ · with state := job.state }) w (w.exec (.repo (.markJobCompleted job))).1 :=
  ⟨rfl, fun _ => Postgres.markJobCompleted_summaries⟩

theorem marks_retrying (job : Job) (retryAt : Time) :
    Marks job.id ({ · with state := job.state, runAt := retryAt.unixMilli }) w
      (w.exec (.repo (.markJobRetrying job retryAt))).1 :=
  ⟨rfl, fun _ => Postgres.markJobRetrying_summaries⟩

theorem marks_failed (job : Job) :
    Marks job.id ({ · with state := job.state }) w (w.exec (.repo (.markJobFailed job))).1 :=
  ⟨rfl, fun _ => Postgres.markJobFailed_summaries⟩

theorem marks_canceled (job : Job) :
    Marks job.id ({ · with state := job.state, cancelRequested := job.cancelRequested }) w
      (w.exec (.repo (.markJobCanceled job))).1 :=
  ⟨rfl, fun _ => Postgres.markJobCanceled_summaries⟩

theorem marks_throttled (job : Job) :
    Marks job.id ({ · with state := job.state }) w (w.exec (.repo (.markJobThrottled job))).1 :=
  ⟨rfl, fun _ => Postgres.markJobThrottled_summaries⟩

end World

-- The lease ends in the broker, and then the job is changed in the same way in the database.
theorem Good.ended {i : JobID} {w₁ w₂ w₃ : World} (h : Good j w) (he : EndsLease i g w w₁ true)
    (h₁ : SameSummaries w₁ w₂) (hm : Marks i g w₂ w₃) (hg : ∀ s, (g s).id = s.id) : Good j w₃ := by
  have hp : w₂.postgres.summaries = w.postgres.summaries := h₁.postgres.trans he.left
  refine h.change (fun k => ?_) (fun k => hp ▸ hm.right k) hg hg fun _ _ _ => rfl
  rw [hm.left, h₁.redis]
  exact he.right k

end

end JobPlatform
