import JobPlatform.Queue.Effects
import JobPlatform.System.World

namespace JobPlatform

-- What both of the stores keep about a job. Times are rounded to milliseconds.
structure Summary where
  id              : JobID
  state           : JobState
  attempts        : Int
  runAt           : Int
  cancelRequested : Bool
  deriving DecidableEq

def JobHash.summary (h : JobHash) : Summary where
  id              := h.id
  state           := h.state
  attempts        := h.attempts
  runAt           := h.runAt
  cancelRequested := h.cancelRequested

def Job.summary (job : Job) : Summary where
  id              := job.id
  state           := job.state
  attempts        := job.attempts
  runAt           := job.runAt.unixMilli
  cancelRequested := job.cancelRequested

@[simp]
theorem jobHash_summary {job : Job} : (jobHash job).summary = job.summary :=
  rfl

@[simp]
theorem jobFromHash_summary {h : JobHash} : (jobFromHash h).summary = h.summary := by
  simp [jobFromHash, JobHash.summary, Job.summary]

namespace Redis

def summaries (r : Redis) (j : JobID) : Option Summary :=
  (r.jobs j).map JobHash.summary

variable {r r' : Redis} {id j : JobID} {f : JobHash → JobHash} {k : ListKey} {ids : List JobID}
         {z : ZSetKey} {s : Score}

theorem Unchanged.summaries (h : Unchanged j r r') : r'.summaries j = r.summaries j := by
  simp [Redis.summaries, h.jobs]

theorem hset_summaries : (r.hset id f).summaries j =
    if j = id then some (f <| (r.jobs id).getD .empty).summary else r.summaries j := by
  unfold summaries
  rw [hset_jobs]
  split <;> rfl

theorem hset_summaries_self {h : JobHash} (hj : r.jobs id = some h) :
    (r.hset id f).summaries id = some (f h).summary := by
  simp [hset_summaries, hj]

@[simp]
theorem lset_summaries : (r.lset k ids).summaries = r.summaries :=
  rfl

@[simp]
theorem lpush_summaries : (r.lpush k id).summaries = r.summaries :=
  rfl

@[simp]
theorem lrem_summaries : (r.lrem k id).summaries = r.summaries :=
  rfl

@[simp]
theorem zadd_summaries : (r.zadd z id s).summaries = r.summaries :=
  rfl

@[simp]
theorem zrem_summaries : (r.zrem z id).summaries = r.summaries :=
  rfl

end Redis

-- The summary of a job whose expired lease has been recovered.
def RecoveredLease.Fits (item : RecoveredLease) (s s' : Summary) : Prop :=
  match item.state with
  | .canceled => s.cancelRequested ∧ s' = { s with state := .canceled }
  | .failed   => s' = { s with state := .failed }
  | .retrying => ∃ n, s' = { s with state := .retrying, runAt := n } ∧ ∀ t ∈ item.retryAt, t.unixMilli = n
  | _         => False

theorem RecoveredLease.Fits.id {item : RecoveredLease} {s s' : Summary} (h : item.Fits s s') : s'.id = s.id := by
  unfold Fits at h
  split at h
  case h_1 => rw [h.right]
  case h_2 => rw [h]
  case h_3 =>
    have ⟨n, he, _⟩ := h
    rw [he]
  case h_4 => exact h.elim

-- Recovering a job once more would not change its summary.
theorem RecoveredLease.Fits.self {item : RecoveredLease} {s s' : Summary} (h : item.Fits s s') : item.Fits s' s' := by
  unfold Fits at h ⊢
  split at h
  case h_1 =>
    have ⟨hc, he⟩ := h
    subst he
    exact ⟨hc, rfl⟩
  case h_2 =>
    subst h
    rfl
  case h_3 =>
    have ⟨n, he, ht⟩ := h
    subst he
    exact ⟨n, rfl, ht⟩
  case h_4 => exact h

namespace RedisBroker

open Redis

variable {b : RedisBroker} {r : Redis} {job : Job} {j : JobID} {now ttl : Int} {leaseToken : Token}
         {workerID : WorkerID} {keys : List ListKey} {s : Summary}

theorem enqueue_summaries {now : Time} : (enqueue job now r).summaries j =
    if j = job.id then some job.summary else r.summaries j := by
  rw [summaries, enqueue_jobs, hset_jobs]
  split <;> rfl

theorem retry_summaries {now : Time} (hd : ¬now < job.runAt) (hs : r.summaries job.id = some s) :
    (retry job now r).summaries j = if j = job.id then
      some { s with
        state           := .queued
        attempts        := job.attempts
        runAt           := job.runAt.unixMilli
        cancelRequested := false
      }
    else r.summaries j := by
  split
  case isFalse h => exact (retry_unchanged h).summaries
  case isTrue h  =>
    have ⟨h, hj, hs⟩ := Option.map_eq_some_iff.mp hs
    subst j
    simp [summaries, retry_jobs, hj, hd, ← hs, JobHash.retry, JobHash.summary]

theorem cancelLoaded_summaries {i : JobID} (hs : r.summaries i = some s) :
    (cancelLoaded i job now r).summaries j = if j = i then
      some { s with
        cancelRequested := true
        state           := if isCancellable job.state then .canceled else s.state
      }
    else r.summaries j := by
  split
  case isFalse h => exact (cancelLoaded_unchanged h).summaries
  case isTrue h  =>
    have ⟨h, hj, hs⟩ := Option.map_eq_some_iff.mp hs
    subst j
    by_cases hc : isCancellable job.state
    all_goals simp [summaries, cancelLoaded_jobs, hj, hc, ← hs, JobHash.requestCancel, JobHash.cancel,
      JobHash.summary]

-- The summary of the job which a script leases.
def leasedSummary (s : Summary) : Summary :=
  { s with state := .active, attempts := s.attempts + 1 }

-- At most one job is leased, and nothing happens to the others.
def Leases (r r' : Redis) : Option (JobID × Token) → Prop
  | none        => r'.summaries = r.summaries
  | some (i, _) => (r.summaries i).isSome ∧
    ∀ j, r'.summaries j = if j = i then (r.summaries j).map leasedSummary else r.summaries j

theorem dequeueLua_leases (workerID : WorkerID) (ttl now : Int) (keys : List ListKey) :
    Leases r (b.dequeueLua workerID ttl now keys r).1 (b.dequeueLua workerID ttl now keys r).2 := by
  apply dequeueLua_rule (P := fun r' => r'.summaries = r.summaries) (Q := Leases r)
  case drop => exact fun r' k j rest hr _ _ _ => hr
  case none => exact fun r' hr => hr
  case hr   => rfl
  case lease =>
    intro r' k i rest h hr _ _ hi _
    have hs : r.summaries i = some h.summary := hr ▸ by simp [summaries, hi]
    refine ⟨by simp [hs], fun j => ?_⟩
    simp only [lease, zadd_summaries, hset_summaries, lset_jobs, lset_summaries, hr]
    split
    case isTrue he => simp [he, hi, hs, JobHash.lease, JobHash.summary, leasedSummary]
    case isFalse   => rfl

theorem heartbeatLua_summaries {i : JobID} : (heartbeatLua i leaseToken ttl now r).1.summaries = r.summaries := by
  apply heartbeatLua_rule (Q := fun x => x.1.summaries = r.summaries) <;> dsimp only
  intro h hi _ _
  funext j
  simp only [renew, zadd_summaries, hset_summaries]
  split
  case isFalse => rfl
  case isTrue he => simp [he, summaries, hi, JobHash.renew, JobHash.summary]

-- A script that ends a lease changes the summary of its job only, and only if it is accepted.
theorem endLease_summaries {body : Redis → Redis} {f : Summary → Summary} {i : JobID}
    (hb : ∀ (r : Redis) h j, r.jobs i = some h → (body r).summaries j =
      if j = i then some (f h.summary) else r.summaries j) :
    (endLease i leaseToken body r).1.summaries j =
      if j = i ∧ (endLease i leaseToken body r).2 then (r.summaries j).map f else r.summaries j := by
  apply endLease_rule (Q := fun x => x.1.summaries j =
    if j = i ∧ x.2 then (r.summaries j).map f else r.summaries j) <;> dsimp only
  case rejected => simp
  case accepted =>
    intro h hi _
    rw [hb (r.zrem .activeLeases i) h j hi]
    by_cases he : j = i
    case pos => simp [he, summaries, hi]
    case neg => simp [he]

theorem completeLua_summaries {result : String} :
    (completeLua job leaseToken now result r).1.summaries j =
      if j = job.id ∧ (completeLua job leaseToken now result r).2
      then (r.summaries j).map ({ · with state := .completed })
      else r.summaries j := by
  apply endLease_summaries
  intro r h j hi
  simp [hset_summaries, hi, JobHash.complete, JobHash.summary]

theorem failLua_some_summaries {errMessage : String} {retryAt : Int} :
    (failLua job leaseToken errMessage (some retryAt) now r).1.summaries j =
      if j = job.id ∧ (failLua job leaseToken errMessage (some retryAt) now r).2
      then (r.summaries j).map ({ · with state := .retrying, runAt := retryAt })
      else r.summaries j := by
  apply endLease_summaries
  intro r h j hi
  simp [hset_summaries, hi, JobHash.retryAfterFailure, JobHash.summary]

theorem failLua_none_summaries {errMessage : String} :
    (failLua job leaseToken errMessage none now r).1.summaries j =
      if j = job.id ∧ (failLua job leaseToken errMessage none now r).2
      then (r.summaries j).map ({ · with state := .failed })
      else r.summaries j := by
  apply endLease_summaries
  intro r h j hi
  simp [hset_summaries, hi, JobHash.fail, JobHash.summary]

theorem throttleLua_summaries {reason : String} {retryAt : Int} :
    (throttleLua job leaseToken now reason retryAt r).1.summaries j =
      if j = job.id ∧ (throttleLua job leaseToken now reason retryAt r).2
      then (r.summaries j).map ({ · with state := .throttled, runAt := retryAt })
      else r.summaries j := by
  apply endLease_summaries
  intro r h j hi
  simp [hset_summaries, hi, JobHash.throttle, JobHash.summary]

-- The summary of a job that is activated.
def queuedSummary (s : Summary) : Summary :=
  { s with state := .queued }

@[simp]
theorem queuedSummary_queuedSummary (s : Summary) : queuedSummary (queuedSummary s) = queuedSummary s :=
  rfl

theorem activate_summaries (now : Int) (id : JobID) :
    ((activate now id r).2 → (r.summaries id).isSome) ∧ (activate now id r).1.summaries j =
      if j = id ∧ (activate now id r).2 then (r.summaries j).map queuedSummary else r.summaries j := by
  unfold activate
  split
  case h_1       => simp
  case h_2 h hid =>
    have hs : r.summaries id = some h.summary := by simp [summaries, hid]
    refine ⟨fun _ => by simp [hs], ?_⟩
    simp only [lpush_summaries, hset_summaries, zrem_summaries, zrem_jobs]
    by_cases he : j = id
    case pos => simp [he, hid, hs, JobHash.activate, JobHash.summary, queuedSummary]
    case neg => simp [he]

-- Exactly the jobs that are returned have been activated.
theorem activateAll_summaries (now : Int) (ids : List JobID) :
    (j ∈ (activateAll now ids r).2 → (r.summaries j).isSome) ∧ (activateAll now ids r).1.summaries j =
      if j ∈ (activateAll now ids r).2 then (r.summaries j).map queuedSummary else r.summaries j := by
  induction ids generalizing r
  case nil             => simp [activateAll]
  case cons id rest hi =>
    unfold activateAll
    split
    case isFalse => exact hi
    case isTrue  =>
      have ⟨hs, he⟩ := activate_summaries (r := r) (j := j) now id
      have ⟨hs', he'⟩ := hi (r := (activate now id r).1)
      dsimp only
      by_cases ha : (activate now id r).2 = true ∧ j = id
      case pos =>
        have ⟨ha, hj⟩ := ha
        subst hj
        refine ⟨fun _ => hs ha, ?_⟩
        rw [he', he]
        simp [ha, Function.comp_def]
      case neg =>
        have hj : (j ∈ if (activate now id r).2 then id :: (activateAll now rest (activate now id r).1).2
            else (activateAll now rest (activate now id r).1).2) ↔
            j ∈ (activateAll now rest (activate now id r).1).2 := by
          split <;> simp_all
        have he : (activate now id r).1.summaries j = r.summaries j := by
          rw [he, if_neg (fun h => ha h.symm)]
        simp only [hj, ← he]
        exact ⟨hs', he'⟩

-- Exactly the jobs of the given items have been recovered.
structure Recovers (r r' : Redis) (items : List RecoveredLease) : Prop where
  recovered : ∀ item ∈ items, ∃ s s',
    r.summaries item.jobID = some s ∧ r'.summaries item.jobID = some s' ∧ item.Fits s s'
  others    : ∀ j, (∀ item ∈ items, item.jobID ≠ j) → r'.summaries j = r.summaries j

theorem reportedRetryAt_unixMilli {d : Double} {t : Time} (h : reportedRetryAt d = some t) :
    t.unixMilli = storedMillis d := by
  unfold reportedRetryAt at h
  split at h
  case h_2 => cases h
  case h_1 n =>
    split at h
    case isFalse => cases h
    case isTrue hn =>
      cases h
      have hn : n.natAbs < 10 ^ 17 := by omega
      simp only [storedMillis, hn, if_true, Time.unixMilli_ofUnixMilli]

theorem recover_fits {h : JobHash} {item : RecoveredLease} (hj : r.jobs j = some h)
    (hr : (b.recover now j h r).2 = .ok item) : item.jobID = j ∧
      ∃ s', (b.recover now j h r).1.summaries j = some s' ∧ item.Fits h.summary s' := by
  revert hr
  apply recover_rule (Q := fun x => x.2 = .ok item → item.jobID = j ∧
    ∃ s', x.1.summaries j = some s' ∧ item.Fits h.summary s') <;> dsimp only
  case aborted => exact fun _ _ _ hr => by cases hr
  case canceled =>
    intro hc hr
    cases hr
    exact ⟨rfl, _, hset_summaries_self hj, hc, rfl⟩
  case failed =>
    intro hc ha hr
    cases hr
    exact ⟨rfl, _, hset_summaries_self (f := (·.failExpired now)) hj, rfl⟩
  case retrying =>
    intro s hc ha hs hr
    cases hr
    refine ⟨rfl, _, hset_summaries_self (f := (·.retryExpired _ now)) hj, _, rfl, ?_⟩
    exact fun t ht => reportedRetryAt_unixMilli ht

theorem Recovers.cons {r' r'' : Redis} {item : RecoveredLease} {items : List RecoveredLease} {s s' : Summary}
    (hs : r.summaries item.jobID = some s) (hs' : r'.summaries item.jobID = some s') (hf : item.Fits s s')
    (hu : ∀ j ≠ item.jobID, r'.summaries j = r.summaries j)
    (hn : ∀ item' ∈ items, item'.jobID ≠ item.jobID) (h : Recovers r' r'' items) :
    Recovers r r'' (item :: items) where
  recovered := by
    intro item' hm
    cases hm
    case head    => exact ⟨s, s', hs, (h.others _ hn).trans hs', hf⟩
    case tail hm => exact hu _ (hn _ hm) ▸ h.recovered item' hm
  others := by
    intro j hj
    have ⟨hj, hi⟩ := List.forall_mem_cons.mp hj
    exact (h.others j hi).trans (hu j hj.symm)

-- The items are those of jobs in the batch.
theorem recoverAll_recovers {ids : List JobID} {items : List RecoveredLease} (hn : ids.Nodup)
    (hr : (b.recoverAll now ids r).2 = .ok items) :
    (∀ item ∈ items, item.jobID ∈ ids) ∧ Recovers r (b.recoverAll now ids r).1 items := by
  induction ids generalizing r items
  case nil =>
    cases hr
    exact ⟨by simp, by simp, by simp [recoverAll]⟩
  case cons id rest hi =>
    obtain ⟨hm, hn⟩ := List.nodup_cons.mp hn
    unfold recoverAll at hr ⊢
    split
    case isFalse h =>
      simp only [h] at hr
      obtain ⟨hs, hr⟩ := hi hn hr
      exact ⟨fun item ht => List.mem_cons_of_mem _ (hs item ht), hr⟩
    case isTrue h  =>
      simp only [h, if_true] at hr
      cases hj : r.jobs id
      case none   =>
        simp only [hj] at hr
        obtain ⟨hs, hr⟩ := hi hn hr
        exact ⟨fun item ht => List.mem_cons_of_mem _ (hs item ht), hr.recovered, hr.others⟩
      case some hash =>
        have hr' {item} := @recover_fits b (r.zrem .activeLeases id) id now hash item hj
        have hu (j : JobID) (he : j ≠ id) := (@recover_unchanged b now (r.zrem .activeLeases id) j id hash he).summaries
        simp only [hj] at hr
        dsimp only
        generalize b.recover now id hash (r.zrem .activeLeases id) = x at hr hr' hu
        obtain ⟨r', res⟩ := x
        cases res
        case error e => cases hr
        case ok item =>
          obtain ⟨he, s', hs', hf⟩ := hr' rfl
          dsimp only at hr
          cases hx : (b.recoverAll now rest r').2
          case error e  => rw [hx] at hr; cases hr
          case ok items =>
            rw [hx] at hr
            cases hr
            obtain ⟨hs, hr⟩ := hi hn hx
            have hne (item') (ht : item' ∈ items) : item'.jobID ≠ item.jobID :=
              he ▸ ne_of_mem_of_not_mem (hs item' ht) hm
            have hi : r.summaries id = some hash.summary := by simp [summaries, hj]
            subst he
            refine ⟨?_, .cons hi hs' hf hu hne hr⟩
            exact List.forall_mem_cons.mpr ⟨List.mem_cons_self, fun i ht => List.mem_cons_of_mem _ (hs i ht)⟩

end RedisBroker

namespace Postgres

def summaries (p : Postgres) (j : JobID) : Option Summary :=
  (p.jobs j).map Job.summary

variable {p : Postgres} {id j : JobID} {job : Job} {f : Job → Job} {g : Summary → Summary}

theorem updateJob_summaries (h : ∀ job, (f job).summary = g job.summary) :
    (p.updateJob id f).summaries j = if j = id then (p.summaries j).map g else p.summaries j := by
  unfold updateJob summaries
  by_cases hj : j = id
  case pos => subst hj; simp [Function.comp_def, h]
  case neg => simp [hj]

theorem markJobQueued_summaries : (p.markJobQueued job).summaries j =
    if j = job.id then (p.summaries j).map ({ job.summary with id := ·.id }) else p.summaries j :=
  updateJob_summaries fun _ => by simp [Job.summary]

theorem markJobActive_summaries : (p.markJobActive job).summaries j =
    if j = job.id then (p.summaries j).map ({ job.summary with id := ·.id }) else p.summaries j :=
  updateJob_summaries fun _ => by simp [Job.summary]

theorem markJobCompleted_summaries : (p.markJobCompleted job).summaries j =
    if j = job.id then (p.summaries j).map ({ · with state := job.state }) else p.summaries j :=
  updateJob_summaries fun _ => rfl

theorem markJobRetrying_summaries {retryAt : Time} : (p.markJobRetrying job retryAt).summaries j =
    if j = job.id then (p.summaries j).map ({ · with state := job.state, runAt := retryAt.unixMilli })
    else p.summaries j :=
  updateJob_summaries fun _ => by simp [Job.summary]

theorem markJobFailed_summaries : (p.markJobFailed job).summaries j =
    if j = job.id then (p.summaries j).map ({ · with state := job.state }) else p.summaries j :=
  updateJob_summaries fun _ => rfl

theorem markJobCanceled_summaries : (p.markJobCanceled job).summaries j =
    if j = job.id then
      (p.summaries j).map ({ · with state := job.state, cancelRequested := job.cancelRequested })
    else p.summaries j :=
  updateJob_summaries fun _ => rfl

theorem markJobThrottled_summaries : (p.markJobThrottled job).summaries j =
    if j = job.id then (p.summaries j).map ({ · with state := job.state }) else p.summaries j :=
  updateJob_summaries fun _ => rfl

@[simp]
theorem updateJobHeartbeat_summaries {workerID : WorkerID} {heartbeatAt leaseExpiresAt : Time} :
    (p.updateJobHeartbeat id workerID heartbeatAt leaseExpiresAt).summaries = p.summaries := by
  funext j
  have h : (p.updateJobHeartbeat id workerID heartbeatAt leaseExpiresAt).summaries j =
      if j = id then (p.summaries j).map (fun s => s) else p.summaries j :=
    updateJob_summaries fun _ => rfl
  simpa using h

@[simp]
theorem upsertJobAttempt_summaries {attempt : JobAttempt} :
    (p.upsertJobAttempt attempt).1.summaries = p.summaries := by
  unfold upsertJobAttempt
  split <;> rfl

@[simp]
theorem upsertDeadLetter_summaries {deadLetter : DeadLetter} :
    (p.upsertDeadLetter deadLetter).1.summaries = p.summaries := by
  unfold upsertDeadLetter
  split <;> rfl

@[simp]
theorem deleteDeadLetters_summaries {jobIDs : List JobID} :
    (p.deleteDeadLetters jobIDs).summaries = p.summaries :=
  rfl

@[simp]
theorem updateIdempotencyOutcome_summaries {status : String} {now : Time} :
    (p.updateIdempotencyOutcome job status now).summaries = p.summaries :=
  rfl

end Postgres
-- Nothing that the stores keep about the job differs.
structure Untouched (j : JobID) (w w' : World) : Prop where
  redis : w.redis.Unchanged j w'.redis
  row   : w'.postgres.jobs j = w.postgres.jobs j

namespace Untouched

variable {w w' w'' : World} {j : JobID}

theorem refl : Untouched j w w where
  redis := .refl ..
  row   := rfl

theorem trans (h : Untouched j w w') (h' : Untouched j w' w'') : Untouched j w w'' where
  redis := h.redis.trans h'.redis
  row   := h'.row.trans h.row

end Untouched
end JobPlatform
