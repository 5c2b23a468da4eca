import JobPlatform.Queue.Fencing
import JobPlatform.Scheduler.Recovery
import JobPlatform.Service.Manager
import JobPlatform.System.Summary
import JobPlatform.Worker.Runtime

namespace JobPlatform

-- The procedures by which a job comes to its end.
inductive Ending
  | complete (r : Runtime) (job : Job) (leaseToken : Token) (result : String) (started : Time)
  | fail (r : Runtime) (job : Job) (leaseToken : Token) (err : HandlerError) (started finished : Time)
  | recoverExpired (s : Scheduler)
  | cancelJob (jobID : JobID)

namespace Ending

def program : Ending → Program (Except Error Unit)
  | complete r job leaseToken result started      => do return .ok (← r.finish job leaseToken (.ok result) started)
  | fail r job leaseToken err started finished    => do return .ok (← r.handleFailure job leaseToken err started finished)
  | recoverExpired s                              => s.recoverExpired
  | cancelJob jobID                               => do return (← Manager.cancelJob jobID).map fun _ => ()

def isWorker : Ending → Bool
  | complete .. => true
  | fail ..     => true
  | _           => false

-- What the scheduler decides about the other jobs of the same batch.
def verdict : Ending → World → JobID → Option JobState
  | recoverExpired s, w => s.verdict w
  | _,                _ => fun _ => none

end Ending

-- The job `j` comes to its end with the state `s`.
structure Becomes (j : JobID) (s : JobState) (w w' : World) : Prop where
  before : w.redis.outcome j ≠ some s
  after  : w'.redis.outcome j = some s

-- Every blocked dependent of `j` has been told how its dependencies have finished.
def Informed (j : JobID) (s : JobState) (w w' : World) : Prop :=
  ∀ e ∈ w.postgres.dependencies.edges, e.dependsOnJobID = j → e.jobID ≠ j →
    ∀ row, w.postgres.jobs e.jobID = some row → row.state = .blocked →
      Worker.Told (Function.update w'.postgres.outcome j (some s)) w' row

-- How the jobs have finished if `v` is what becomes of them.
def outcomeAfter (v : JobID → Option JobState) (w : World) (j : JobID) : Option JobState :=
  ((w.postgres.standing j).map fun x => (v j).getD x.1).filter (·.isFinal)

-- There is nothing left to tell to a blocked job when its dependencies finish as in `o`.
structure Knows (v : JobID → Option JobState) (o : JobID → Option JobState) (w : World) (row : Job) : Prop where
  released  : row.dependencyPolicy = .allowFailed →
    (∀ e ∈ w.postgres.dependencies.edges, e.jobID = row.id → (o e.dependsOnJobID).isSome) →
    w.redis.Waits row.id ∨ v row.id = some .retrying
  explained : row.dependencyPolicy = .block →
    (∃ e ∈ w.postgres.dependencies.edges, e.jobID = row.id ∧ (o e.dependsOnJobID).any (·.isFailure)) →
    ∃ e ∈ w.postgres.dependencies.edges, e.jobID = row.id ∧ (o e.dependsOnJobID).any (·.isFailure) ∧
      row.Names e.dependsOnJobID

-- No blocked dependent of `j` has to be told anything when `j` ends with the state `s`.
def NoneToTell (e : Ending) (j : JobID) (s : JobState) (w : World) : Prop :=
  ∀ d ∈ w.postgres.dependencies.edges, d.dependsOnJobID = j → d.jobID ≠ j →
    ∀ row, w.postgres.jobs d.jobID = some row → row.state = .blocked →
      Knows (e.verdict w) (Function.update (outcomeAfter (e.verdict w) w) j (some s)) w row

-- Apart from the job `j`, the jobs are as `v` says, and nothing is told to the dependents.
structure Silent (j : JobID) (v : JobID → Option JobState) (w w' : World) : Prop where
  edges : w'.postgres.dependencies = w.postgres.dependencies
  waits : ∀ k ≠ j, w'.redis.Waits k ↔ w.redis.Waits k ∨ v k = some .retrying
  rows  : ∀ k ≠ j, w'.postgres.standing k = (w.postgres.standing k).map fun x => ((v k).getD x.1, x.2)

variable {w w' w₁ w₂ : World} {j k : JobID} {s t : JobState} {v : JobID → Option JobState} {job row : Job}

theorem Postgres.outcome_eq_standing {p : Postgres} :
    p.outcome j = ((p.standing j).map (·.1)).filter (·.isFinal) := by
  simp [outcome, standing, Function.comp_def]

theorem Silent.outcome (h : Silent j v w w') :
    Function.update w'.postgres.outcome j (some s) = Function.update (outcomeAfter v w) j (some s) := by
  funext k
  by_cases hk : k = j
  case pos => simp [hk]
  case neg => simp [hk, Postgres.outcome_eq_standing, h.rows k hk, outcomeAfter, Function.comp_def]

-- Nobody tells the dependents anything, so they must know it already.
theorem Silent.told_iff {o : JobID → Option JobState} (h : Silent j v w w') (hj : row.id ≠ j)
    (hr : w.postgres.jobs row.id = some row) : Worker.Told o w' row ↔ Knows v o w row := by
  have hs : (w'.postgres.jobs row.id).map (·.blockedReason) = some row.blockedReason := by
    have hs := congrArg (Option.map Prod.snd) (h.rows row.id hj)
    simpa [Postgres.standing, hr, Function.comp_def] using hs
  obtain ⟨row', hr', hs⟩ := Option.map_eq_some_iff.mp hs
  have hn (k : JobID) : (∃ row', w'.postgres.jobs row.id = some row' ∧ row'.Names k) ↔ row.Names k := by
    simp [hr', Job.Names, hs]
  constructor
  case mp =>
    intro ht
    constructor
    · exact fun hc hx => (h.waits _ hj).mp <| ht.released hc (h.edges ▸ hx)
    · intro hc hx
      obtain ⟨e, he, hi, hx, hn'⟩ := ht.explained hc (h.edges ▸ hx)
      exact ⟨e, h.edges ▸ he, hi, hx, (hn _).mp hn'⟩
  case mpr =>
    intro hk
    constructor
    · exact fun hc hx => (h.waits _ hj).mpr <| hk.released hc (h.edges ▸ hx)
    · intro hc hx
      obtain ⟨e, he, hi, hx, hn'⟩ := hk.explained hc (h.edges ▸ hx)
      exact ⟨e, h.edges ▸ he, hi, hx, (hn _).mpr hn'⟩

theorem Silent.informed_iff_noneToTell {e : Ending} (hp : w.postgres.Relational) (h : Silent j (e.verdict w) w w') :
    Informed j s w w' ↔ NoneToTell e j s w := by
  unfold Informed NoneToTell
  rw [h.outcome]
  refine forall_congr' fun d => forall_congr' fun _ => forall_congr' fun _ => forall_congr' fun hj => ?_
  refine forall_congr' fun row => forall_congr' fun hr => forall_congr' fun _ => ?_
  have hi := hp.keyed _ row hr
  exact h.told_iff (hi ▸ hj) (hi ▸ hr)

-- The job `j` has ended with the state `s` in both stores.
structure Ended (j : JobID) (s : JobState) (w w' : World) : Prop where
  edges      : w'.postgres.dependencies = w.postgres.dependencies
  relational : w'.postgres.Relational
  row        : (w.postgres.jobs j).isSome → w'.postgres.outcome j = some s
  others     : ∀ k ≠ j, w'.postgres.jobs k = w.postgres.jobs k
  hash       : w'.redis.outcome j = some s
  hashes     : ∀ k ≠ j, w'.redis.outcome k = w.redis.outcome k

theorem Postgres.Relational.keeps (h : w₁.postgres.Relational) (hk : w₁.Keeps w₂) : w₂.postgres.Relational where
  keyed j job hj := h.keyed j job (hk.jobs ▸ hj)
  known e he     := by
    rw [hk.jobs]
    exact h.known e (hk.edges ▸ he)

theorem Ended.keeps (h : Ended j s w w₁) (hk : w₁.Keeps w₂) : Ended j s w w₂ where
  edges         := hk.edges.trans h.edges
  relational    := h.relational.keeps hk
  row hj        := by rw [← h.row hj]; simp [Postgres.outcome, hk.jobs]
  others k hj   := by rw [hk.jobs, h.others k hj]
  hash          := by rw [hk.redis, h.hash]
  hashes k hj   := by rw [hk.redis, h.hashes k hj]

-- The broker ends the job, and then the database writes its state.
theorem Ended.of_update {f : Job → Job} {redis : Redis} {calls : Nat} (hp : w.postgres.Relational) (hs : s.isFinal)
    (hf : ∀ row, (f row).id = row.id ∧ (f row).state = s) (hash : redis.outcome j = some s)
    (hashes : ∀ k ≠ j, redis.outcome k = w.redis.outcome k) :
    Ended j s w { w with calls, redis, postgres := w.postgres.updateJob j f } where
  edges       := rfl
  relational  := hp.updateJob fun row => (hf row).left
  hash        := hash
  hashes      := hashes
  others k hk := Postgres.updateJob_jobs.trans <| if_neg hk
  row hj      := by
    have ⟨row, hj⟩ := Option.isSome_iff_exists.mp hj
    have hr : (w.postgres.updateJob j f).jobs j = some (f row) :=
      Postgres.updateJob_jobs.trans <| (if_pos rfl).trans (by rw [hj]; rfl)
    dsimp only
    rw [Postgres.outcome_eq hr, (hf row).right, if_pos hs]

-- A worker that has ended a job tells its dependents.
theorem Ended.informed {now : Time} (hp : w.postgres.Relational) (h : Ended job.id s w w₁)
    (hb : Becomes j t w ((Worker.resolveDependents job now).run World.exec w₁).1) :
    Informed j t w ((Worker.resolveDependents job now).run World.exec w₁).1 := by
  have ⟨ha, ht⟩ := @Worker.resolveDependents_run w₁ job now h.relational
  have hj : w₁.redis.outcome j = some t := ha.redis j t hb.after
  by_cases hi : j = job.id
  case neg => exact absurd (h.hashes j hi ▸ hj) hb.before
  case pos =>
    subst hi
    have hs : s = t := Option.some.inj <| h.hash.symm.trans hj
    subst hs
    intro e he hd hn row hr hs
    have ho : w₁.postgres.outcome job.id = some s := h.row (hd ▸ (hp.known e he).right)
    rw [ha.outcome, ← ho, Function.update_eq_self]
    exact ht e (h.edges ▸ he) hd row ((h.others _ hn).trans hr) hs

theorem Redis.Unchanged.outcome {r r' : Redis} (h : r.Unchanged j r') : r'.outcome j = r.outcome j := by
  simp [Redis.outcome, h.jobs]

theorem Redis.outcome_eq_summaries {r : Redis} : r.outcome j = ((r.summaries j).map (·.state)).filter (·.isFinal) := by
  simp only [Redis.outcome, summaries, Option.map_map]
  rfl

namespace RedisBroker

variable {r : Redis} {leaseToken : Token} {errMessage result : String} {now retryAt : Int}

theorem endLease_rejected {body : Redis → Redis} (h : (endLease j leaseToken body r).2 = false) :
    (endLease j leaseToken body r).1 = r := by
  revert h
  apply endLease_rule (Q := fun x => x.2 = false → x.1 = r) <;> dsimp only
  case rejected => exact fun _ => rfl
  case accepted => exact fun _ _ _ h => nomatch h

theorem completeLua_rejected (h : (completeLua job leaseToken now result r).2 = false) :
    (completeLua job leaseToken now result r).1 = r :=
  endLease_rejected h

theorem failLua_rejected {at' : Option Int} (h : (failLua job leaseToken errMessage at' now r).2 = false) :
    (failLua job leaseToken errMessage at' now r).1 = r :=
  endLease_rejected h

theorem completeLua_outcome (h : (completeLua job leaseToken now result r).2 = true) :
    (completeLua job leaseToken now result r).1.outcome job.id = some .completed := by
  have ⟨hash, hj, _⟩ := completeLua_token h
  rw [Redis.outcome_eq_summaries, completeLua_summaries, if_pos ⟨rfl, h⟩, Redis.summaries, hj]
  rfl

theorem failLua_none_outcome (h : (failLua job leaseToken errMessage none now r).2 = true) :
    (failLua job leaseToken errMessage none now r).1.outcome job.id = some .failed := by
  have ⟨hash, hj, _⟩ := failLua_token h
  rw [Redis.outcome_eq_summaries, failLua_none_summaries, if_pos ⟨rfl, h⟩, Redis.summaries, hj]
  rfl

-- A job that is retried has not come to its end.
theorem failLua_some_outcome (h : (failLua job leaseToken errMessage (some retryAt) now r).1.outcome j = some s) :
    r.outcome j = some s := by
  rw [Redis.outcome_eq_summaries, failLua_some_summaries] at h
  split at h
  case isFalse => rwa [Redis.outcome_eq_summaries]
  case isTrue  => cases hs : r.summaries j <;> simp [hs, Option.filter, JobState.isFinal] at h

end RedisBroker

namespace Runtime

open Worker

variable {r : Runtime} {leaseToken : Token} {result : String} {err : HandlerError} {started finished : Time}

theorem finish_eq (r : Runtime) (job : Job) (leaseToken : Token) (result : String) (started : Time) :
    r.finish job leaseToken (.ok result) started = .call .now fun finished =>
      .call (.broker (.complete (completedJob job result started finished) leaseToken result finished)) fun
        | .error _  => .ret ()
        | .ok false => .ret ()
        | .ok true  => .call (.repo (.markJobCompleted <| completedJob job result started finished)) fun _ =>
          (updateIdempotencyOutcome (completedJob job result started finished) "completed").bind fun _ =>
            .call (.repo (.upsertJobAttempt <|
                r.attempt (completedJob job result started finished) leaseToken "completed" none "" started finished))
              fun _ => resolveDependents (completedJob job result started finished) finished := by
  refine congrArg (Prog.call _) (funext fun now => congrArg (Prog.call _) (funext fun res => ?_))
  match res with
  | .error _ | .ok false | .ok true => rfl

-- A completed job has ended in both stores when its dependents are resolved.
theorem finish_run (hp : w.postgres.Relational) :
    ((r.finish job leaseToken (.ok result) started).run World.exec w).1.redis = w.redis ∨
    ∃ w₁ job' now, Ended job'.id .completed w w₁ ∧
      ((r.finish job leaseToken (.ok result) started).run World.exec w).1 =
        ((resolveDependents job' now).run World.exec w₁).1 := by
  rw [finish_eq]
  simp only [Prog.run_call, World.exec_now, World.exec_broker, RedisBroker.exec, Prod.map_fst, Prod.map_snd, id]
  generalize hj : completedJob job result started w.now = job'
  have hs : job'.state = .completed := hj ▸ rfl
  have hu (k) (hk : k ≠ job'.id) : w.redis.Unchanged k
      (RedisBroker.completeLua job' leaseToken w.now.unixMilli result w.redis).1 :=
    RedisBroker.completeLua_unchanged hk
  have hr (h : (RedisBroker.completeLua job' leaseToken w.now.unixMilli result w.redis).2 = false) :=
    RedisBroker.completeLua_rejected h
  have ha (h : (RedisBroker.completeLua job' leaseToken w.now.unixMilli result w.redis).2 = true) :=
    RedisBroker.completeLua_outcome h
  generalize RedisBroker.completeLua job' leaseToken w.now.unixMilli result w.redis = x at hr ha hu ⊢
  obtain ⟨redis, accepted⟩ := x
  cases accepted
  case false => exact .inl (hr rfl)
  case true  =>
    right
    simp only [Prog.run_call, Prog.run_bind]
    refine ⟨_, _, _, .keeps ?_ <| World.updateIdempotencyOutcome_keeps.trans World.exec_upsertJobAttempt_keeps, rfl⟩
    exact .of_update hp rfl (fun _ => ⟨rfl, hs⟩) (ha rfl) fun k hk => (hu k hk).outcome

theorem handleFailure_eq (r : Runtime) (job : Job) (leaseToken : Token) (err : HandlerError) (started finished : Time) :
    r.handleFailure job leaseToken err started finished =
      let job' := failedJob job err started finished
      .call (.broker (.fail job' leaseToken job'.lastError (r.failureRetryAt job finished) finished)) fun
        | .error _  => .ret ()
        | .ok false => .ret ()
        | .ok true  =>
          match r.failureRetryAt job finished with
          | some retryAt => .call (.repo (.markJobRetrying job' retryAt)) fun _ =>
            .call (.repo (.upsertJobAttempt <|
              r.attempt job' leaseToken "retrying" err job'.lastError started finished)) fun _ => .ret ()
          | none => .call (.repo (.markJobFailed job')) fun _ =>
            (updateIdempotencyOutcome job' "failed").bind fun _ =>
              .call (.repo (.upsertJobAttempt <|
                  r.attempt job' leaseToken "failed" err job'.lastError started finished)) fun _ =>
                .call (.repo (.upsertDeadLetter <| r.deadLetter job' err finished)) fun _ =>
                  resolveDependents job' finished := by
  refine congrArg (Prog.call _) (funext fun res => ?_)
  match res with
  | .error _ | .ok false => rfl
  | .ok true => cases r.failureRetryAt job finished <;> rfl

-- A job that fails for good has ended in both stores when its dependents are resolved.
theorem handleFailure_run (hp : w.postgres.Relational) :
    (∀ k s, ((r.handleFailure job leaseToken err started finished).run World.exec w).1.redis.outcome k = some s →
      w.redis.outcome k = some s) ∨
    ∃ w₁ job' now, Ended job'.id .failed w w₁ ∧
      ((r.handleFailure job leaseToken err started finished).run World.exec w).1 =
        ((resolveDependents job' now).run World.exec w₁).1 := by
  rw [handleFailure_eq]
  dsimp only
  have hst (ha : ¬job.attempts < job.maxAttempts) : (failedJob job err started finished).state = .failed := by
    simp [failedJob, ha]
  generalize failedJob job err started finished = job' at hst ⊢
  simp only [Prog.run_call, World.exec_broker, RedisBroker.exec, Prod.map_fst, Prod.map_snd, id]
  cases ha : r.failureRetryAt job finished
  case some retryAt =>
    left
    have hs (k s) (h : (RedisBroker.failLua job' leaseToken job'.lastError (some retryAt.unixMilli)
        finished.unixMilli w.redis).1.outcome k = some s) := RedisBroker.failLua_some_outcome h
    simp only [Option.map_some]
    generalize RedisBroker.failLua job' leaseToken job'.lastError (some retryAt.unixMilli) finished.unixMilli w.redis = x
      at hs ⊢
    obtain ⟨redis, accepted⟩ := x
    cases accepted <;> exact hs
  case none         =>
    have ha : ¬job.attempts < job.maxAttempts := by
      intro hl
      simp [failureRetryAt, hl] at ha
    have hu (k) (hk : k ≠ job'.id) : w.redis.Unchanged k
        (RedisBroker.failLua job' leaseToken job'.lastError none finished.unixMilli w.redis).1 :=
      RedisBroker.failLua_unchanged hk
    have hr (h : (RedisBroker.failLua job' leaseToken job'.lastError none finished.unixMilli w.redis).2 = false) :=
      RedisBroker.failLua_rejected h
    have ho (h : (RedisBroker.failLua job' leaseToken job'.lastError none finished.unixMilli w.redis).2 = true) :=
      RedisBroker.failLua_none_outcome h
    simp only [Option.map_none]
    generalize RedisBroker.failLua job' leaseToken job'.lastError none finished.unixMilli w.redis = x at hu hr ho ⊢
    obtain ⟨redis, accepted⟩ := x
    cases accepted
    case false =>
      left
      intro k s hs
      have hr : redis = w.redis := hr rfl
      exact hr ▸ hs
    case true  =>
      right
      simp only [Prog.run_call, Prog.run_bind]
      refine ⟨_, _, _, .keeps ?_ <| World.updateIdempotencyOutcome_keeps.trans <|
        World.exec_upsertJobAttempt_keeps.trans World.exec_upsertDeadLetter_keeps, rfl⟩
      exact .of_update hp rfl (fun _ => ⟨rfl, hst ha⟩) (ho rfl) fun k hk => (hu k hk).outcome

end Runtime

namespace Manager

theorem cancelJob_eq (jobID : JobID) : cancelJob jobID =
    .call (.repo (.getJob jobID)) fun
      | .error e => .ret (.error e)
      | .ok job  => .call (.broker (.loadJob jobID)) fun
        | .error e   => .ret (.error e)
        | .ok loaded => .call .now fun now => .call (.broker (.cancelLoaded jobID loaded now)) fun
          | .error e => .ret (.error e)
          | .ok ()   => .call .now fun now => .call (.repo (.markJobCanceled (canceledJob job now))) fun
            | .error e => .ret (.error e)
            | .ok ()   => .ret (.ok (canceledJob job now)) := by
  refine congrArg (Prog.call _) (funext fun res => ?_)
  cases res
  case error  => rfl
  case ok job =>
    refine congrArg (Prog.call _) (funext fun res => ?_)
    cases res
    case error     => rfl
    case ok loaded =>
      refine congrArg (Prog.call _) (funext fun now => congrArg (Prog.call _) (funext fun res => ?_))
      match res with
      | .error _ => rfl
      | .ok ()   =>
        refine congrArg (Prog.call _) (funext fun now => congrArg (Prog.call _) (funext fun res => ?_))
        match res with
        | .error _ | .ok () => rfl

theorem cancelJob_run {jobID : JobID} (hp : w.postgres.Relational)
    (hr : ∃ job, ((cancelJob jobID).run World.exec w).2 = .ok job) :
    Silent jobID (fun _ => none) w ((cancelJob jobID).run World.exec w).1 ∧
    ∀ k ≠ jobID, ((cancelJob jobID).run World.exec w).1.redis.outcome k = w.redis.outcome k := by
  rw [cancelJob_eq] at hr ⊢
  simp only [Prog.run_call, World.exec_repo, Postgres.exec, Postgres.getJob] at hr ⊢
  cases hj : w.postgres.jobs jobID
  case none     => simp [hj] at hr
  case some job =>
    simp only [hj, Prog.run_call, World.exec_broker, RedisBroker.exec, RedisBroker.loadJob] at hr ⊢
    cases hl : w.redis.jobs jobID
    case none      => simp [hl] at hr
    case some hash =>
      simp only [Prog.run_call, World.exec_now, World.exec_broker, RedisBroker.exec, World.exec_repo, Postgres.exec,
        Prog.run_ret]
      have hi : job.id = jobID := hp.keyed jobID job hj
      have hu (k) (hk : k ≠ jobID) (now : Int) : w.redis.Unchanged k
          (RedisBroker.cancelLoaded jobID (jobFromHash hash) now w.redis) :=
        RedisBroker.cancelLoaded_unchanged hk
      refine ⟨⟨rfl, fun k hk => ?_, fun k hk => ?_⟩, fun k hk => (hu k hk _).outcome⟩
      · simpa using (hu k hk _).waits
      · have hk : k ≠ job.id := hi ▸ hk
        dsimp only
        unfold Postgres.standing
        rw [Postgres.markJobCanceled, Postgres.updateJob_jobs, if_neg (hi ▸ hk)]
        simp [Function.comp_def]

end Manager

namespace Ending

theorem run_return {α β : Type} {p : Program α} {f : α → β} :
    ((p.bind fun x => .ret (f x)).run World.exec w).1 = (p.run World.exec w).1 := by
  rw [Prog.run_bind]
  rfl

-- The dependents of a job learn about its end if it ends in a worker. Otherwise, they learn nothing.
theorem informed_iff {e : Ending} (hp : w.postgres.Relational) (hk : ∀ i h, w.redis.jobs i = some h → h.id = i)
    (hr : (e.program.run World.exec w).2 = .ok ())
    (hb : Becomes j s w (e.program.run World.exec w).1) :
    Informed j s w (e.program.run World.exec w).1 ↔ e.isWorker ∨ NoneToTell e j s w := by
  have none (h : ∀ k t, (e.program.run World.exec w).1.redis.outcome k = some t → w.redis.outcome k = some t) : False :=
    hb.before (h j s hb.after)
  cases e
  case complete r job leaseToken result started =>
    have hw : ((complete r job leaseToken result started).program.run World.exec w).1 =
        ((r.finish job leaseToken (.ok result) started).run World.exec w).1 := run_return
    rw [hw] at hb none ⊢
    have hf := @Runtime.finish_run w job r leaseToken result started hp
    refine iff_of_true ?_ (.inl rfl)
    cases hf
    case inl he => exact (none fun k t ht => he ▸ ht).elim
    case inr hf =>
      have ⟨w₁, job', now, he, hf⟩ := hf
      rw [hf] at hb ⊢
      exact he.informed hp hb
  case fail r job leaseToken err started finished =>
    have hw : ((fail r job leaseToken err started finished).program.run World.exec w).1 =
        ((r.handleFailure job leaseToken err started finished).run World.exec w).1 := run_return
    rw [hw] at hb none ⊢
    have hf := @Runtime.handleFailure_run w job r leaseToken err started finished hp
    refine iff_of_true ?_ (.inl rfl)
    cases hf
    case inl he => exact (none he).elim
    case inr hf =>
      have ⟨w₁, job', now, he, hf⟩ := hf
      rw [hf] at hb ⊢
      exact he.informed hp hb
  case recoverExpired sch =>
    have h : Scheduler.Recovery _ w _ := Scheduler.recoverExpired_run hk hr
    have hv : Silent j ((recoverExpired sch).verdict w) w ((recoverExpired sch).program.run World.exec w).1 :=
      ⟨h.edges, fun k _ => (h.redis k).waits, fun k _ => h.rows k⟩
    simpa only [isWorker, Bool.false_eq_true, false_or] using hv.informed_iff_noneToTell hp
  case cancelJob jobID =>
    have hw : ((cancelJob jobID).program.run World.exec w).1 = ((Manager.cancelJob jobID).run World.exec w).1 :=
      run_return
    have hr : ∃ job, ((Manager.cancelJob jobID).run World.exec w).2 = .ok job := by
      have hr' : ((Manager.cancelJob jobID).run World.exec w).2.map (fun _ => ()) = .ok () := by
        rw [← hr]
        simp only [program, Prog.bind_eq, Prog.run_bind]
        rfl
      cases hc : ((Manager.cancelJob jobID).run World.exec w).2
      case error => simp [hc, Except.map] at hr'
      case ok job => exact ⟨job, rfl⟩
    rw [hw] at hb ⊢
    have ⟨hv, ho⟩ := Manager.cancelJob_run hp hr
    by_cases hj : j = jobID
    case neg => exact absurd (ho j hj ▸ hb.after) hb.before
    case pos =>
      subst hj
      have hv : Silent j ((cancelJob j).verdict w) w _ := hv
      simpa only [isWorker, Bool.false_eq_true, false_or] using hv.informed_iff_noneToTell hp

-- A job, and another one which waits until it has finished in any way.
def upstream : Job :=
  buildJob World.sample.now (.plain "email.send") "job-1"

def downstream : Job :=
  buildJob World.sample.now { JobRequest.plain "email.send" with
    dependencies     := ["job-1"]
    dependencyPolicy := "allow_failed"
  } "job-2"

def chain : World :=
  { World.sample with
    redis    := RedisBroker.enqueue downstream World.sample.now <| RedisBroker.enqueue upstream World.sample.now .empty
    postgres := { Postgres.empty with
      jobs         := Function.update (Function.update (fun _ => none) "job-1" <| some upstream) "job-2" <| some downstream
      dependencies := DependencyTable.empty.insert { jobID := "job-2", dependsOnJobID := "job-1" }
    }
  }

theorem keyed_of_pair {α : Type} {f : α → JobID} {a b x : α}
    (h : Function.update (Function.update (fun _ => none) (f a) <| some a) (f b) (some b) j = some x) : f x = j := by
  simp only [Function.update_apply] at h
  split at h
  case isTrue hi => exact Option.some.inj h ▸ hi.symm
  case isFalse   =>
    split at h
    case isTrue hi => exact Option.some.inj h ▸ hi.symm
    case isFalse   => cases h

theorem chain_relational : chain.postgres.Relational where
  keyed j job h := keyed_of_pair (f := Job.id) (a := upstream) (b := downstream) h
  known e he    := by
    have he : e ∈ [{ jobID := "job-2", dependsOnJobID := "job-1" : JobDependency }] := he
    rw [List.mem_singleton.mp he]
    decide

theorem chain_keyed {h : JobHash} (hi : chain.redis.jobs j = some h) : h.id = j :=
  keyed_of_pair (f := JobHash.id) (a := jobHash upstream) (b := jobHash downstream) hi

theorem not_waits : ¬chain.redis.Waits "job-2" := by
  intro hw
  cases hw
  case inl hl =>
    have ⟨queueName, priority, hm⟩ := hl
    have hl : chain.redis.lists (.ready queueName priority) =
        if .ready queueName priority = ListKey.ready "default" 5 then ["job-1"] else [] := Redis.lpush_lists
    rw [hl] at hm
    split at hm <;> simp at hm
  case inr hs => exact absurd hs (by decide)

theorem chain_becomes : Becomes "job-1" .canceled chain ((cancelJob "job-1").program.run World.exec chain).1 where
  before := by decide
  after  := by decide

theorem informed_iff_sample : Informed "job-1" .canceled chain ((cancelJob "job-1").program.run World.exec chain).1 ↔
    (cancelJob "job-1").isWorker ∨ NoneToTell (cancelJob "job-1") "job-1" .canceled chain :=
  informed_iff chain_relational (fun _ _ => chain_keyed) (by decide) chain_becomes

-- When the job is canceled its dependent is not released.
theorem not_informed_of_cancelJob :
    ((cancelJob "job-1").program.run World.exec chain).2 = .ok () ∧
    Becomes "job-1" .canceled chain ((cancelJob "job-1").program.run World.exec chain).1 ∧
    ¬Informed "job-1" .canceled chain ((cancelJob "job-1").program.run World.exec chain).1 := by
  refine ⟨by decide, chain_becomes, fun h => ?_⟩
  have ht := h { jobID := "job-2", dependsOnJobID := "job-1" } (by decide) rfl (by decide) downstream rfl rfl
  have hw := ht.released rfl (by decide)
  have hr : ∃ job, ((Manager.cancelJob "job-1").run World.exec chain).2 = .ok job := ⟨_, rfl⟩
  have ⟨hs, _⟩ := Manager.cancelJob_run chain_relational hr
  exact not_waits <| by simpa using (hs.waits "job-2" (by decide)).mp hw

end Ending
end JobPlatform
