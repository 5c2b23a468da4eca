import JobPlatform.Queue.Effects
import JobPlatform.Store.Effects
import JobPlatform.Service.Manager

namespace JobPlatform

-- Neither of the stores knows the job.
structure Traceless (w : World) (id : JobID) : Prop where
  row     : w.postgres.jobs id = none
  edges   : ∀ e ∈ w.postgres.dependencies.edges, e.jobID ≠ id ∧ e.dependsOnJobID ≠ id
  records : ∀ scope record, w.postgres.idempotency scope = some record → record.jobID ≠ id
  hash    : w.redis.jobs id = none
  entries : ∀ p, w.redis.occurrences id p = 0

variable {faults : Nat → Fault} {w w' : World} {id : JobID} {job : Job}

theorem Traceless.congr (h : Traceless w id) (hr : w'.redis = w.redis) (hp : w'.postgres = w.postgres) :
    Traceless w' id where
  row     := hp ▸ h.row
  edges   := hp ▸ h.edges
  records := hp ▸ h.records
  hash    := hr ▸ h.hash
  entries := hr ▸ h.entries

theorem timeNow_run :
    timeNow.run (World.tryExec faults) w = ({ w with calls := w.calls + 1 }, w.now) := by
  cases hf : faults w.calls
  all_goals simp [timeNow, World.tryExec, hf, Call.failure?, World.exec, World.effect]

theorem Broker.enqueue_run : (Broker.enqueue job).run (World.tryExec faults) w =
    match faults (w.calls + 1) with
    | .none    => ({ w with redis := RedisBroker.enqueue job w.now w.redis, calls := w.calls + 2 }, .ok ())
    | .refused => ({ w with calls := w.calls + 2 }, .error .unavailable)
    | .lost    => ({ w with redis := RedisBroker.enqueue job w.now w.redis, calls := w.calls + 2 },
                    .error .unavailable) := by
  simp only [Broker.enqueue, Prog.bind_eq, Prog.run_bind, timeNow_run]
  cases hf : faults (w.calls + 1)
  all_goals simp [broker, World.tryExec, hf, Call.failure?, World.exec, World.effect, RedisBroker.exec,
    timeNow_run]

theorem RedisBroker.enqueue_hash {r : Redis} {now : Time} :
    (RedisBroker.enqueue job now r).jobs job.id = some (jobHash job) := by
  simp [enqueue_jobs]

namespace Manager

variable {m : Manager} {req : JobRequest} {jobID : JobID} {p : Postgres} {result : EnqueueResult}

-- The transaction in which `createJob` stores the job.
def creation (m : Manager) (req : JobRequest) (job : Job) (p : Postgres) :
    Postgres × Except Error EnqueueResult :=
  let dependencies := sanitizeDependencies req.dependencies job.id
  if job.idempotencyKey ≠ "" then
    p.createJobWithIdempotency job dependencies (m.dedupeWindow req)
  else
    let (p', res) := p.createJobBundle job dependencies
    (p', res.map fun _ => { job, duplicateSuppressed := false, idempotency := none })

theorem createJob_run : (m.createJob req job).run (World.tryExec faults) w =
    match faults w.calls with
    | .none    => ({ w with postgres := (m.creation req job w.postgres).1, calls := w.calls + 1 },
                    (m.creation req job w.postgres).2)
    | .refused => ({ w with calls := w.calls + 1 }, .error .unavailable)
    | .lost    => ({ w with postgres := (m.creation req job w.postgres).1, calls := w.calls + 1 },
                    .error .unavailable) := by
  by_cases hk : job.idempotencyKey = ""
  case neg =>
    simp only [createJob, creation, hk, ne_eq, not_false_eq_true, if_true]
    cases hf : faults w.calls
    all_goals simp [repo, World.tryExec, hf, Call.failure?, World.exec, World.effect, Postgres.exec]
  case pos =>
    simp only [createJob, creation, hk, ne_eq, not_true, if_false, Prog.bind_eq, Prog.run_bind]
    cases hf : faults w.calls
    case none =>
      simp only [repo, Prog.run_perform, World.tryExec, hf, World.exec, World.effect, Postgres.exec]
      generalize Postgres.createJobBundle job _ w.postgres = x
      match x with
      | (_, .ok _) | (_, .error _) => rfl
    all_goals simp [repo, World.tryExec, hf, Call.failure?, World.exec, World.effect, Postgres.exec]

-- The transaction stores the job, since neither a check nor an unexpired record prevents it.
structure Commits (req : JobRequest) (job : Job) (p : Postgres) : Prop where
  storable : p.Storable job (sanitizeDependencies req.dependencies job.id)
  expired  : job.idempotencyKey ≠ "" →
    ∀ record ∈ p.idempotency (idempotencyScope job.tenantID job.type job.idempotencyKey),
      record.expiresAt ≤ job.createdAt

theorem creation_rule {Q : Postgres × Except Error EnqueueResult → Prop}
    (refused : ∀ e, ¬Commits req job p → Q (p, .error e))
    (suppressed : ∀ record existing, job.idempotencyKey ≠ "" → ¬Commits req job p →
      p.idempotency (idempotencyScope job.tenantID job.type job.idempotencyKey) = some record →
      p.jobs record.jobID = some existing →
      Q (p, .ok { job := existing, duplicateSuppressed := true, idempotency := some record }))
    (stored : ∀ p' idempotency, Commits req job p →
      p'.jobs = Function.update p.jobs job.id (some <| Postgres.newRow job) →
      Q (p', .ok { job, duplicateSuppressed := false, idempotency })) :
    Q (m.creation req job p) := by
  have hs {p'} (h : p.storeTx job (sanitizeDependencies req.dependencies job.id) = .ok p') :
      p.Storable job (sanitizeDependencies req.dependencies job.id) ∧
        p'.jobs = Function.update p.jobs job.id (some <| Postgres.newRow job) := by
    obtain ⟨hs, hj, _⟩ := Postgres.storeTx_eq_ok h
    exact ⟨hs, hj⟩
  have hr {e} (h : p.storeTx job (sanitizeDependencies req.dependencies job.id) = .error e) :
      ¬Commits req job p := by
    intro hc
    obtain ⟨_, hp⟩ := Postgres.storeTx_storable hc.storable
    simp [hp] at h
  unfold creation
  dsimp only
  split
  case isFalse hk =>
    rw [Postgres.createJobBundle_eq, Postgres.transaction]
    cases h : p.storeTx job (sanitizeDependencies req.dependencies job.id)
    case error e => exact refused e (hr h)
    case ok p'   =>
      obtain ⟨hs, hj⟩ := hs h
      exact stored p' none ⟨hs, fun h => absurd h hk⟩ hj
  case isTrue hk =>
    by_cases hx : ∀ record ∈ p.idempotency (idempotencyScope job.tenantID job.type job.idempotencyKey),
      record.expiresAt ≤ job.createdAt
    case pos =>
      rw [Postgres.createJobWithIdempotency_expired hx, Postgres.transaction]
      cases h : p.storeTx job (sanitizeDependencies req.dependencies job.id)
      case error e => exact refused e (hr h)
      case ok p'   =>
        obtain ⟨hs, hj⟩ := hs h
        exact stored _ _ ⟨hs, fun _ => hx⟩ hj
    case neg =>
      have hn : ¬Commits req job p := fun h => hx <| h.expired hk
      simp only [not_forall, not_le] at hx
      obtain ⟨existing, he, hx⟩ := hx
      rw [Postgres.createJobWithIdempotency_unexpired he hx]
      cases hj : p.jobs existing.jobID
      case none             => exact refused .noRows hn
      case some existingJob => exact suppressed existing existingJob hk hn he hj

-- The store has committed the job, but the answer is lost or the broker does not enqueue the job.
def FailsAfterCommit (m : Manager) (req : JobRequest) (jobID : JobID) (faults : Nat → Fault) (w : World) : Prop :=
  m.accepts req = .ok () ∧ Commits req (buildJob w.now req jobID) w.postgres ∧
    (faults (w.calls + 1) = .lost ∨ faults (w.calls + 1) = .none ∧ faults (w.calls + 3) ≠ .none)

-- The ways in which `enqueueJob` can end.
theorem enqueueJob_rule {Q : World × Except Error EnqueueResult → Prop}
    (unchanged : ∀ w' e, w'.redis = w.redis → w'.postgres = w.postgres →
      ¬FailsAfterCommit m req jobID faults w → Q (w', .error e))
    (suppressed : ∀ w' record existing, req.idempotencyKey ≠ "" → w.postgres.idempotency req.scope = some record →
      w.postgres.jobs record.jobID = some existing → w'.redis = w.redis → w'.postgres = w.postgres →
      ¬FailsAfterCommit m req jobID faults w →
      Q (w', .ok { job := existing, duplicateSuppressed := true, idempotency := some record }))
    (enqueued : ∀ w' result, w'.redis.jobs result.job.id = some (jobHash result.job) →
      result.job = buildJob w.now req jobID →
      result.duplicateSuppressed = false → Commits req result.job w.postgres →
      w'.postgres.jobs = Function.update w.postgres.jobs jobID (some <| Postgres.newRow result.job) →
      ¬FailsAfterCommit m req jobID faults w → Q (w', .ok result))
    (halfway : ∀ w' e, (w'.postgres.jobs jobID).isSome → FailsAfterCommit m req jobID faults w →
      Q (w', .error e)) :
    Q ((m.enqueueJob req jobID).run (World.tryExec faults) w) := by
  unfold enqueueJob
  cases ha : m.accepts req
  case error e => exact unchanged w e rfl rfl (by simp [FailsAfterCommit, ha])
  case ok      =>
    simp only [Prog.bind_eq, Prog.run_bind, timeNow_run, createJob_run]
    have hid : (buildJob w.now req jobID).id = jobID := rfl
    generalize hb : buildJob w.now req jobID = job
    rw [hb] at hid
    have hn (h : ¬Commits req job w.postgres) : ¬FailsAfterCommit m req jobID faults w :=
      fun hf => h <| hb ▸ hf.right.left
    cases hf : faults (w.calls + 1)
    case refused => exact unchanged _ _ rfl rfl (by simp [FailsAfterCommit, hf])
    case lost    =>
      refine creation_rule (m := m) (Q := fun x => m.creation req job w.postgres = x → Q _) ?_ ?_ ?_ rfl
      case refine_1 =>
        intro e hc hx
        simp only [hx]
        exact unchanged _ _ rfl rfl (hn hc)
      case refine_2 =>
        intro _ _ _ hc _ _ hx
        simp only [hx]
        exact unchanged _ _ rfl rfl (hn hc)
      case refine_3 =>
        intro p' _ hc hj hx
        simp only [hx]
        exact halfway _ _ (by simp [hj, hid]) ⟨ha, hb ▸ hc, .inl hf⟩
    case none    =>
      refine creation_rule (m := m) (Q := fun x => m.creation req job w.postgres = x → Q _) ?_ ?_ ?_ rfl
      case refine_1 =>
        intro e hc hx
        simp only [hx]
        exact unchanged _ _ rfl rfl (hn hc)
      case refine_2 =>
        intro _ _ hk hc hr hj hx
        simp only [hx]
        subst hb
        exact suppressed _ _ _ hk hr hj rfl rfl (hn hc)
      case refine_3 =>
        intro p' _ hc hj hx
        simp only [hx, Bool.false_eq_true, if_false, Prog.run_bind, Broker.enqueue_run]
        cases he : faults (w.calls + 3)
        case none =>
          refine enqueued _ _ RedisBroker.enqueue_hash hb.symm rfl hc ?_ (by simp [FailsAfterCommit, hf, he])
          exact hid ▸ hj
        all_goals exact halfway _ _ (by simp [hj, hid]) ⟨ha, hb ▸ hc, .inr ⟨hf, by simp [he]⟩⟩

-- An error before the store has committed the job leaves the stores as they are.
theorem enqueueJob_unchanged {e : Error} (h : (m.enqueueJob req jobID).run (World.tryExec faults) w = (w', .error e))
    (hn : ¬FailsAfterCommit m req jobID faults w) : w'.redis = w.redis ∧ w'.postgres = w.postgres := by
  revert h
  refine enqueueJob_rule (Q := fun x => x = (w', .error e) → _) ?_ ?_ ?_ ?_
  case refine_1 =>
    intro _ _ hr hp _ h
    cases h
    exact ⟨hr, hp⟩
  case refine_2 => exact fun _ _ _ _ _ _ _ _ _ h => by cases h
  case refine_3 => exact fun _ _ _ _ _ _ _ _ h => by cases h
  case refine_4 => exact fun _ _ _ hf => absurd hf hn

theorem traceless_sample : Traceless .sample jobID where
  row     := rfl
  edges   := by simp [World.sample, Postgres.empty, DependencyTable.empty]
  records := by simp [World.sample, Postgres.empty]
  hash    := rfl
  entries p := by cases p <;> simp [World.sample, Redis.occurrences, Redis.empty]

end Manager
end JobPlatform
