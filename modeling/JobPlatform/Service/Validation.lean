import JobPlatform.Library.Run
import JobPlatform.Scheduler.Cron
import JobPlatform.Service.Replay
import JobPlatform.Service.Schemas

namespace JobPlatform

namespace Postgres

def tasks (p : Postgres) (j : JobID) : Option Task :=
  (p.jobs j).map Job.task

variable {p p' : Postgres} {job : Job} {jobID : JobID} {dependencies : List JobID} {dedupeWindow : Duration} {f : Job → Job}
         {c : RepoCall}

theorem updateJob_tasks (hf : ∀ job, (f job).task = job.task) : (p.updateJob jobID f).tasks = p.tasks := by
  funext j
  unfold tasks updateJob
  by_cases hj : j = jobID
  case pos => simp [hj, Function.comp_def, hf]
  case neg => simp [hj]

-- The tasks when a new job may have been stored.
def Stores (job : Job) (p p' : Postgres) : Prop :=
  p'.tasks = p.tasks ∨ p.tasks job.id = none ∧ p'.tasks = Function.update p.tasks job.id (some job.task)

theorem storeTx_stores (h : storeTx job dependencies p = .ok p') : Stores job p p' := by
  have ⟨hs, hj, _⟩ := storeTx_eq_ok h
  refine .inr ⟨by simp [tasks, hs.absent], ?_⟩
  funext j
  rw [tasks, hj, Function.update_apply, Function.update_apply]
  split <;> rfl

theorem createJobBundle_stores : Stores job p (p.createJobBundle job dependencies).1 :=
  createJobBundle_rule (.inl rfl) fun _ => storeTx_stores

theorem createJobWithIdempotency_stores :
    Stores job p (p.createJobWithIdempotency job dependencies dedupeWindow).1 :=
  createJobWithIdempotency_rule (.inl rfl) fun _ => storeTx_stores

-- The job which a call may create.
def creates : RepoCall → Option Job
  | .createJobBundle job _             => some job
  | .createJobWithIdempotency job _ _  => some job
  | _                                  => none

theorem exec_stores (h : creates c = some job) : Stores job p (p.exec c).1 := by
  cases c
  case createJobBundle          => cases h; exact createJobBundle_stores
  case createJobWithIdempotency => cases h; exact createJobWithIdempotency_stores
  all_goals cases h

theorem exec_tasks (h : creates c = none) : (p.exec c).1.tasks = p.tasks := by
  cases c
  case createJobBundle          => cases h
  case createJobWithIdempotency => cases h
  case getJob                   => rfl
  case listDependencies         => rfl
  case listDependentJobs        => rfl
  case deleteDeadLetters        => rfl
  case updateIdempotencyOutcome => rfl
  case upsertJobAttempt         =>
    unfold exec upsertJobAttempt
    dsimp only
    split <;> rfl
  case upsertDeadLetter         =>
    unfold exec upsertDeadLetter
    dsimp only
    split <;> rfl
  all_goals exact updateJob_tasks fun _ => rfl

end Postgres

-- The type and the version of the task are those of the other one, unless any payload is accepted.
def Task.Fits (registry : Registry) (t t' : Task) : Prop :=
  t.type = t'.type ∧ t.schemaVersion = t'.schemaVersion ∨ registry.validators t.type = none

-- All the tasks in the stores have been admitted.
structure Sound (registry : Registry) (w : World) : Prop where
  recorded : w.postgres.Recorded
  redis    : w.redis.Admitted registry
  rows     : ∀ j t, w.postgres.tasks j = some t → t.Admitted registry
  paired   : ∀ j t, w.redis.tasks j = some t → ∃ t', w.postgres.tasks j = some t' ∧ t.Fits registry t'

-- The call leads to no task that has not been admitted.
def Permits (registry : Registry) (w : World) : Call → Prop
  | .broker (.enqueue job _)         => w.postgres.tasks job.id = some job.task
  | .broker (.retry job _)           => (w.redis.retriedTask job).Admitted registry ∧
    ∃ t', w.postgres.tasks job.id = some t' ∧ (w.redis.retriedTask job).Fits registry t'
  | .broker (.cancelLoaded jobID ..) => (w.redis.jobs jobID).isSome
  | .repo c                          => ∀ job ∈ Postgres.creates c, job.task.Admitted registry
  | _                                => True

variable {registry : Registry} {w w' w₁ : World} {faults : Nat → Fault} {c : Call} {j jobID : JobID} {job row : Job}
         {now : Time} {ids : List JobID} {q : Requeue} {req : DeadLetterReplayRequest}

theorem World.tryExec_cases (faults : Nat → Fault) (w : World) (c : Call) :
    (w.tryExec faults c).1 = { w with calls := w.calls + 1 } ∨ (w.tryExec faults c).1 = (w.exec c).1 := by
  unfold tryExec
  split
  · exact .inl rfl
  · exact .inr rfl
  · exact .inr rfl

namespace Sound

theorem start (broker : RedisBroker) (clock : Clock) : Sound registry (.started broker clock) where
  recorded := ⟨fun _ _ h => (nomatch h), fun _ _ h => (nomatch h)⟩
  redis    := .empty
  rows     := fun _ _ h => (nomatch h)
  paired   := fun _ _ h => (nomatch h)

theorem repo {c : RepoCall} (h : Sound registry w) (hp : Permits registry w (.repo c)) :
    Sound registry (w.exec (.repo c)).1 := by
  have hr : (w.exec (.repo c)).1.postgres.Recorded := (h.recorded.exec c).recorded
  have frame (ht : (w.postgres.exec c).1.tasks = w.postgres.tasks) : Sound registry (w.exec (.repo c)).1 :=
    ⟨hr, h.redis, ht ▸ h.rows, ht ▸ h.paired⟩
  cases hc : Postgres.creates c
  case none     => exact frame (Postgres.exec_tasks hc)
  case some job =>
    cases Postgres.exec_stores hc (p := w.postgres)
    case inl ht => exact frame ht
    case inr hs =>
      have ⟨hn, ht⟩ := hs
      have ht : (w.exec (.repo c)).1.postgres.tasks = _ := ht
      refine ⟨hr, h.redis, fun j t hj => ?_, fun j t hj => ?_⟩
      · rw [ht, Function.update_apply] at hj
        split at hj
        case isTrue  => cases hj; exact hp job hc
        case isFalse => exact h.rows j t hj
      · have ⟨t', hj', hf⟩ := h.paired j t hj
        refine ⟨t', ?_, hf⟩
        have hne : j ≠ job.id := fun he => by simp [he, hn] at hj'
        rw [ht, Function.update_of_ne hne, hj']

theorem broker {c : BrokerCall} (h : Sound registry w) (hp : Permits registry w (.broker c)) :
    Sound registry (w.exec (.broker c)).1 := by
  -- One of the jobs gets a new task.
  have assign {r : Redis} {j : JobID} {t t' : Task} (ha : r.Admitted registry)
      (hr : r.tasks = Function.update w.redis.tasks j (some t)) (hj : w.postgres.tasks j = some t')
      (hf : t.Fits registry t') : Sound registry { w with calls := w.calls + 1, redis := r } := by
    refine ⟨h.recorded, ha, h.rows, fun i s hi => ?_⟩
    have hi : r.tasks i = some s := hi
    rw [hr, Function.update_apply] at hi
    split at hi
    case isTrue he => cases hi; exact ⟨t', he ▸ hj, hf⟩
    case isFalse   => exact h.paired i s hi
  have frame (hc : ∀ j, ¬c.assigns j)
      (hj : ∀ j job now, c = .cancelLoaded j job now → (w.redis.jobs j).isSome) :
      Sound registry (w.exec (.broker c)).1 := by
    refine ⟨h.recorded, RedisBroker.exec_admitted hc hj h.redis, h.rows, fun j t ht => ?_⟩
    refine h.paired j t ?_
    have hk : (w.redis.jobs j).isSome ∨ ∀ job now, c ≠ .cancelLoaded j job now :=
      or_iff_not_imp_right.mpr fun hn => by
        simp only [not_forall, not_not] at hn
        have ⟨job, now, he⟩ := hn
        exact hj j job now he
    rw [← RedisBroker.exec_tasks (b := w.broker) (hc j) hk]
    exact ht
  cases c
  case enqueue job now =>
    have ha : job.task.Admitted registry := h.rows job.id _ hp
    exact assign (RedisBroker.enqueue_admitted h.redis ha) RedisBroker.enqueue_tasks hp (.inl ⟨rfl, rfl⟩)
  case retry job now   =>
    have ⟨ha, t', hj, hf⟩ := hp
    exact assign (RedisBroker.retry_admitted h.redis ha) RedisBroker.retry_tasks hj hf
  case cancelLoaded i job now => exact frame (fun _ => id) fun j _ _ he => by cases he; exact hp
  all_goals exact frame (fun _ => id) fun _ _ _ he => (nomatch he)

theorem tryExec (h : Sound registry w) (hp : Permits registry w c) : Sound registry (w.tryExec faults c).1 := by
  cases w.tryExec_cases faults c
  case inl he => exact he ▸ ⟨h.recorded, h.redis, h.rows, h.paired⟩
  case inr he =>
    rw [he]
    cases c
    case broker c => exact h.broker hp
    case repo c   => exact h.repo hp
    all_goals exact ⟨h.recorded, h.redis, h.rows, h.paired⟩

end Sound

namespace Manager

variable {m : Manager} {jobReq : JobRequest} {id : JobID} {result : EnqueueResult}

theorem creation_stored {p p' : Postgres} (h : m.creation jobReq job p = (p', .ok result))
    (hd : result.duplicateSuppressed = false) : p'.tasks result.job.id = some result.job.task := by
  revert h
  refine creation_rule (Q := fun x => x = (p', .ok result) → _) ?_ ?_ ?_
  case refine_1 => exact fun _ _ h => by cases h
  case refine_2 => exact fun _ _ _ _ _ _ h => by cases h; cases hd
  case refine_3 =>
    intro _ _ _ hj h
    cases h
    rw [Postgres.tasks, hj, Function.update_self]
    rfl

theorem createJob_stored (h : (m.createJob jobReq job).run (World.tryExec faults) w = (w', .ok result))
    (hd : result.duplicateSuppressed = false) : w'.postgres.tasks result.job.id = some result.job.task := by
  rw [createJob_run] at h
  split at h
  case h_1 => cases hc : m.creation jobReq job w.postgres
              rw [hc] at h
              cases h
              exact creation_stored hc hd
  case h_2 => cases h
  case h_3 => cases h

theorem createJob_guarded (ha : job.task.Admitted registry) :
    (m.createJob jobReq job).Guarded (World.tryExec faults) (Permits registry) w := by
  have admitted (job' : Job) (h : job' ∈ some job) : job'.task.Admitted registry := by cases h; exact ha
  unfold createJob
  dsimp only
  split
  case isTrue  => exact ⟨admitted, trivial⟩
  case isFalse =>
    refine Prog.guarded_bind.mpr ⟨⟨admitted, trivial⟩, ?_⟩
    split <;> trivial

-- A request is validated before anything is stored.
theorem enqueueJob_guarded (hm : m.validateSchema = registry.validate) :
    (m.enqueueJob jobReq id).Guarded (World.tryExec faults) (Permits registry) w := by
  unfold enqueueJob
  cases ha : m.accepts jobReq
  case error => trivial
  case ok    =>
    refine Prog.guarded_bind.mpr ⟨⟨trivial, trivial⟩, ?_⟩
    have hn : timeNow.run (World.tryExec faults) w = _ := timeNow_run
    rw [hn]
    refine Prog.guarded_bind.mpr ⟨createJob_guarded <| accepts_admitted w.now id hm ha, ?_⟩
    generalize hc : (m.createJob jobReq (buildJob w.now jobReq id)).run (World.tryExec faults) _ = x
    match x with
    | (_, .error _)    => trivial
    | (w₁, .ok result) =>
      dsimp only
      split
      case isTrue     => trivial
      case isFalse hd =>
        have hs := createJob_stored hc (eq_false_of_ne_true hd)
        refine Prog.guarded_bind.mpr ⟨Prog.guarded_bind.mpr ⟨⟨trivial, trivial⟩, ?_⟩, ?_⟩
        · have hn : timeNow.run (World.tryExec faults) w₁ = _ := timeNow_run
          rw [hn]
          exact ⟨hs, trivial⟩
        · split <;> trivial

theorem enqueueBatch_guarded {reqs : List (JobRequest × JobID)} {results : List EnqueueResult}
    (hm : m.validateSchema = registry.validate) :
    (m.enqueueBatch reqs results).Guarded (World.tryExec faults) (Permits registry) w := by
  induction reqs generalizing w results
  case nil               => trivial
  case cons head rest hi =>
    refine Prog.guarded_bind.mpr ⟨enqueueJob_guarded hm, ?_⟩
    split
    case h_1 => trivial
    case h_2 => exact hi

end Manager

-- The hash of the job, or what `Retry` makes of one that is not there.
def Redis.hashOf (r : Redis) (jobID : JobID) : JobHash :=
  (r.jobs jobID).getD .empty

-- The broker knows the job. Otherwise it loses its type, which is fine if there is no schema for jobs
-- without a type.
def Known (registry : Registry) (w : World) (jobID : JobID) : Prop :=
  (w.redis.jobs jobID).isSome ∨ registry.validators "" = none

-- The overrides would have been accepted in a request of the type and version that the broker knows.
structure DeadLetterReplayRequest.Passes (registry : Registry) (w : World) (jobID : JobID)
    (req : DeadLetterReplayRequest) : Prop where
  priority : ∀ priority ∈ req.priority, IsPriority priority
  payload  : req.payload ≠ "" →
    registry.validate (w.redis.hashOf jobID).type (w.redis.hashOf jobID).schemaVersion req.payload = .ok ()

def Requeue.Passes (registry : Registry) (w : World) (jobID : JobID) : Requeue → Prop
  | retryJob _            => Known registry w jobID
  | replayDeadLetters req => Known registry w jobID ∧ req.Passes registry w jobID

namespace Requeue

theorem Passes.known (h : q.Passes registry w jobID) : Known registry w jobID := by
  cases q
  case retryJob          => exact h
  case replayDeadLetters => exact h.left

theorem Passes.priority (h : q.Passes registry w jobID) (hr : IsPriority row.priority) :
    IsPriority (q.edit row now).priority := by
  cases q
  case retryJob              => exact hr
  case replayDeadLetters req =>
    change IsPriority (req.priority.getD row.priority)
    cases hp : req.priority
    case none   => exact hr
    case some p => exact h.right.priority p hp

theorem Passes.payload (h : q.Passes registry w jobID)
    (hr : registry.validate (w.redis.hashOf jobID).type (w.redis.hashOf jobID).schemaVersion row.payload = .ok ()) :
    registry.validate (w.redis.hashOf jobID).type (w.redis.hashOf jobID).schemaVersion (q.edit row now).payload = .ok () := by
  cases q
  case retryJob              => exact hr
  case replayDeadLetters req =>
    dsimp only [edit, Manager.replayedJob]
    split
    case isTrue hp => exact h.right.payload hp
    case isFalse   => exact hr

end Requeue

-- What the operations do between two of their jobs.
structure Prepared (registry : Registry) (q : Requeue) (ids : List JobID) (w : World) : Prop where
  sound  : Sound registry w
  passes : ∀ jobID ∈ ids, (w.postgres.tasks jobID).isSome → q.Passes registry w jobID

theorem Sound.fits (h : Sound registry w) (hk : Known registry w jobID) {t : Task} (hr : w.postgres.tasks jobID = some t) :
    (w.redis.hashOf jobID).task.Fits registry t := by
  unfold Redis.hashOf
  cases hj : w.redis.jobs jobID
  case none   =>
    refine .inr (hk.resolve_left ?_)
    simp [hj]
  case some g =>
    have ⟨t', ht, hf⟩ := h.paired jobID g.task (Redis.tasks_eq_some.mpr ⟨g, hj, rfl⟩)
    rw [hr] at ht
    cases ht
    exact hf

theorem Sound.permits_retry (h : Sound registry w) (now : Time) (hr : w.postgres.jobs jobID = some row)
    (hp : q.Passes registry w jobID) :
    Permits registry w (.broker (.retry (q.edit row now) now)) := by
  have hid : (q.edit row now).id = jobID := (Requeue.isEdit.id row).trans (h.recorded.keyed _ _ hr)
  have ht : w.postgres.tasks jobID = some row.task := by rw [Postgres.tasks, hr]; rfl
  have hf := h.fits hp.known ht
  have ha := h.rows jobID _ ht
  have hv : registry.validate (w.redis.hashOf jobID).type (w.redis.hashOf jobID).schemaVersion row.payload = .ok () := by
    cases hf
    case inl hf =>
      have ⟨ht, hs⟩ := hf
      have ht : (w.redis.hashOf jobID).type = row.type := ht
      have hs : (w.redis.hashOf jobID).schemaVersion = row.schemaVersion := hs
      rw [ht, hs]
      exact ha.payload
    case inr hn => exact Registry.validate_of_unknown hn
  have hrt : w.redis.retriedTask (q.edit row now) = { (w.redis.hashOf jobID).task with
      queue := (q.edit row now).queue, payload := (q.edit row now).payload, priority := (q.edit row now).priority } := by
    rw [Redis.retriedTask, hid]
    rfl
  refine ⟨?_, row.task, hid ▸ ht, ?_⟩
  · rw [hrt]
    exact ⟨hp.priority ha.priority, hp.payload hv⟩
  · rw [hrt]
    exact hf

-- The calls of the operations which put jobs back into their queues.
def Call.requeues : Call → Bool
  | .now                          => true
  | .broker (.retry ..)           => true
  | .repo (.getJob ..)            => true
  | .repo (.markJobQueued ..)     => true
  | .repo (.deleteDeadLetters ..) => true
  | _                             => false

-- They create no rows, remove no hashes, and never write a type or a version.
structure Steady (w w' : World) : Prop where
  rows    : w'.postgres.tasks = w.postgres.tasks
  known   : ∀ j, (w.redis.jobs j).isSome → (w'.redis.jobs j).isSome
  type    : ∀ j, (w'.redis.hashOf j).type = (w.redis.hashOf j).type
  version : ∀ j, (w'.redis.hashOf j).schemaVersion = (w.redis.hashOf j).schemaVersion

namespace Steady

theorem of_redis (hr : w'.redis = w.redis) (hp : w'.postgres.tasks = w.postgres.tasks) : Steady w w' where
  rows      := hp
  known _   := hr ▸ id
  type _    := hr ▸ rfl
  version _ := hr ▸ rfl

theorem retry : Steady w (w.exec (.broker (.retry job now))).1 := by
  have hu (j : JobID) (hj : j ≠ job.id) : (RedisBroker.retry job now w.redis).jobs j = w.redis.jobs j :=
    (RedisBroker.retry_unchanged hj).jobs
  have hs := @RedisBroker.retry_jobs w.redis job now
  have keep {α : Type} (f : JobHash → α) (hf : ∀ h, f (h.retry job now.unixMilli) = f h ∧ f h.schedule = f h) (j : JobID) :
      f ((RedisBroker.retry job now w.redis).hashOf j) = f (w.redis.hashOf j) := by
    unfold Redis.hashOf
    by_cases hj : j = job.id
    case neg => rw [hu j hj]
    case pos =>
      rw [hj, hs]
      dsimp only [Option.getD_some]
      split
      case isTrue  => rw [(hf _).right, (hf _).left]
      case isFalse => rw [(hf _).left]
  constructor
  case rows    => rfl
  case known   =>
    intro j h
    change ((RedisBroker.retry job now w.redis).jobs j).isSome
    by_cases hj : j = job.id
    case pos => rw [hj, hs]; rfl
    case neg => rwa [hu j hj]
  case type    => exact keep (·.type) fun _ => ⟨rfl, rfl⟩
  case version => exact keep (·.schemaVersion) fun _ => ⟨rfl, rfl⟩

theorem tryExec (hc : c.requeues) : Steady w (w.tryExec faults c).1 := by
  cases w.tryExec_cases faults c
  case inl he => exact he ▸ .of_redis rfl rfl
  case inr he =>
    rw [he]
    clear he
    cases c
    case now       => exact .of_redis rfl rfl
    case broker c  =>
      cases c
      case retry => exact retry
      all_goals exact absurd hc Bool.false_ne_true
    case repo c    =>
      cases c
      case getJob            => exact .of_redis rfl rfl
      case markJobQueued job => exact .of_redis rfl (Postgres.exec_tasks (c := .markJobQueued job) rfl)
      case deleteDeadLetters => exact .of_redis rfl rfl
      all_goals exact absurd hc Bool.false_ne_true
    all_goals exact absurd hc Bool.false_ne_true

end Steady

namespace Requeue

theorem Passes.steady (h : q.Passes registry w jobID) (hs : Steady w w') : q.Passes registry w' jobID := by
  have hk : Known registry w' jobID := h.known.imp_left (hs.known jobID)
  cases q
  case retryJob          => exact hk
  case replayDeadLetters =>
    refine ⟨hk, h.right.priority, fun hp => ?_⟩
    rw [hs.type, hs.version]
    exact h.right.payload hp

end Requeue

namespace Prepared

theorem tryExec (h : Prepared registry q ids w) (hp : Permits registry w c) (hc : c.requeues) :
    Prepared registry q ids (w.tryExec faults c).1 where
  sound                := h.sound.tryExec hp
  passes jobID hm hj   := (h.passes jobID hm <| (Steady.tryExec hc).rows ▸ hj).steady (Steady.tryExec hc)

theorem tail (h : Prepared registry q (jobID :: ids) w) : Prepared registry q ids w :=
  ⟨h.sound, fun _ hm => h.passes _ (List.mem_cons_of_mem _ hm)⟩

end Prepared

namespace Manager

theorem replayAll_guarded {acc : List Job} (h : Prepared registry (.replayDeadLetters req) ids w) :
    (replayAll req now ids acc).Guarded (World.tryExec faults) (Permits registry) w := by
  induction ids generalizing w acc
  case nil                => trivial
  case cons jobID rest hi =>
    have hn (job : Job) (hj : job ∈ (none : Option Job)) : job.task.Admitted registry := by cases hj
    unfold replayAll
    refine Prog.guarded_bind.mpr ⟨⟨hn, trivial⟩, ?_⟩
    have h₁ : Prepared registry _ _ ((repo (.getJob jobID)).run (World.tryExec faults) w).1 := h.tryExec hn rfl
    generalize hg : (repo (.getJob jobID)).run (World.tryExec faults) w = x at h₁
    obtain ⟨w₁, res⟩ := x
    cases res
    case error  => trivial
    case ok row =>
      obtain ⟨hr, hp, hrow⟩ := getJob_ok hg
      have hrow : w₁.postgres.jobs jobID = some row := hp ▸ hrow
      have hpass := h₁.passes jobID List.mem_cons_self (by rw [Postgres.tasks, hrow]; rfl)
      have hperm := h₁.sound.permits_retry now hrow hpass
      refine Prog.guarded_bind.mpr ⟨⟨hperm, trivial⟩, ?_⟩
      have h₂ : Prepared registry _ _
          ((broker (.retry (replayedJob req row now) now)).run (World.tryExec faults) w₁).1 := h₁.tryExec hperm rfl
      generalize (broker (.retry (replayedJob req row now) now)).run (World.tryExec faults) w₁ = x at h₂
      obtain ⟨w₂, res⟩ := x
      cases res
      case error => trivial
      case ok    =>
        refine Prog.guarded_bind.mpr ⟨⟨hn, trivial⟩, ?_⟩
        have h₃ : Prepared registry _ _
            ((repo (.markJobQueued (replayedJob req row now))).run (World.tryExec faults) w₂).1 := h₂.tryExec hn rfl
        generalize (repo (.markJobQueued (replayedJob req row now))).run (World.tryExec faults) w₂ = x at h₃
        obtain ⟨w₃, res⟩ := x
        cases res
        case error => trivial
        case ok    =>
          refine Prog.guarded_bind.mpr ⟨⟨hn, trivial⟩, ?_⟩
          have h₄ : Prepared registry _ _
              ((repo (.deleteDeadLetters [(replayedJob req row now).id])).run (World.tryExec faults) w₃).1 :=
            h₃.tryExec hn rfl
          generalize (repo (.deleteDeadLetters [(replayedJob req row now).id])).run (World.tryExec faults) w₃ = x at h₄
          obtain ⟨w₄, res⟩ := x
          cases res
          case error => trivial
          case ok    => exact hi h₄.tail

theorem retryJob_guarded (h : Prepared registry (.retryJob jobID) [jobID] w) :
    (retryJob jobID).Guarded (World.tryExec faults) (Permits registry) w := by
  have hn (job : Job) (hj : job ∈ (none : Option Job)) : job.task.Admitted registry := nomatch hj
  unfold retryJob
  refine Prog.guarded_bind.mpr ⟨⟨hn, trivial⟩, ?_⟩
  have h₁ : Prepared registry _ _ ((repo (.getJob jobID)).run (World.tryExec faults) w).1 := h.tryExec hn rfl
  generalize hg : (repo (.getJob jobID)).run (World.tryExec faults) w = x at h₁
  match x with
  | (_, .error _) => trivial
  | (w₁, .ok row) =>
    have ⟨hr, hp, hrow⟩ := getJob_ok hg
    have hrow : w₁.postgres.jobs jobID = some row := hp ▸ hrow
    have hpass := h₁.passes jobID List.mem_cons_self (by rw [Postgres.tasks, hrow]; rfl)
    refine Prog.guarded_bind.mpr ⟨⟨trivial, trivial⟩, ?_⟩
    have ht : timeNow.run (World.tryExec faults) w₁ = _ := timeNow_run
    rw [ht]
    have hperm := h₁.sound.permits_retry w₁.now hrow hpass
    refine Prog.guarded_bind.mpr ⟨⟨hperm, trivial⟩, ?_⟩
    generalize (broker (.retry (retriedJob row w₁.now) w₁.now)).run (World.tryExec faults) _ = x
    match x with
    | (_, .error _) => trivial
    | (w₂, .ok ())  =>
      refine Prog.guarded_bind.mpr ⟨⟨hn, trivial⟩, ?_⟩
      generalize (repo (.markJobQueued (retriedJob row w₁.now))).run (World.tryExec faults) w₂ = x
      match x with
      | (_, .error _) => trivial
      | (w₃, .ok ())  => exact Prog.guarded_bind.mpr ⟨⟨hn, trivial⟩, trivial⟩

end Manager

theorem Requeue.program_guarded (h : Prepared registry q q.jobIDs w) :
    q.program.Guarded (World.tryExec faults) (Permits registry) w := by
  cases q
  case retryJob jobID        => exact Prog.guarded_bind.mpr ⟨Manager.retryJob_guarded h, trivial⟩
  case replayDeadLetters req =>
    refine Prog.guarded_bind.mpr ⟨⟨trivial, trivial⟩, ?_⟩
    exact Manager.replayAll_guarded <| h.tryExec (c := .now) trivial rfl

-- The ways into the queues, and a call that is made for another purpose. The scheduler requests the jobs
-- of its schedules.
inductive Intake
  | enqueueJob (req : JobRequest) (jobID : JobID)
  | enqueueBatch (reqs : List (JobRequest × JobID))
  | dispatch (schedule : Schedule) (jobID : JobID)
  | requeue (q : Requeue)
  | other (c : Call)

namespace Intake

def program (m : Manager) : Intake → Program Unit
  | enqueueJob req jobID    => do let _ ← m.enqueueJob req jobID; return ()
  | enqueueBatch reqs       => do let _ ← m.enqueueBatch reqs []; return ()
  | dispatch schedule jobID => do let _ ← m.enqueueJob schedule.request jobID; return ()
  | requeue q               => do let _ ← q.program; return ()
  | other c                 => do let _ ← Prog.perform c; return ()

-- The calls in each step have faults of their own.
def step (m : Manager) (w : World) (a : Intake × (Nat → Fault)) : World :=
  ((a.1.program m).run (World.tryExec a.2) w).1

-- A call which neither creates nor enqueues nor retries a job. Only a job that the broker knows is canceled.
def IsOther (w : World) : Call → Prop
  | .broker (.enqueue ..)            => False
  | .broker (.retry ..)              => False
  | .broker (.cancelLoaded jobID ..) => (w.redis.jobs jobID).isSome
  | .repo c                          => Postgres.creates c = none
  | _                                => True

-- The jobs which are put back are known to the broker, and the overrides pass the checks.
def Allowed (registry : Registry) (w : World) (a : Intake × (Nat → Fault)) : Prop :=
  match a.1 with
  | requeue q => ∀ jobID ∈ q.jobIDs, (w.postgres.tasks jobID).isSome → q.Passes registry w jobID
  | other c   => IsOther w c
  | _         => True

end Intake

theorem Intake.IsOther.permits (h : Intake.IsOther w c) : Permits registry w c := by
  cases c
  case broker c =>
    cases c
    case enqueue      => exact h.elim
    case retry        => exact h.elim
    case cancelLoaded => exact h
    all_goals trivial
  case repo c   =>
    have h : Postgres.creates c = none := h
    intro job hj
    rw [h] at hj
    cases hj
  all_goals trivial

theorem Intake.permits (m : Manager) (hm : m.validateSchema = registry.validate) (h : Sound registry w)
    {a : Intake × (Nat → Fault)} (ha : Allowed registry w a) :
    (a.1.program m).Guarded (World.tryExec a.2) (Permits registry) w := by
  match a with
  | (enqueueJob .., _)   => exact Prog.guarded_bind.mpr ⟨Manager.enqueueJob_guarded hm, trivial⟩
  | (enqueueBatch .., _) => exact Prog.guarded_bind.mpr ⟨Manager.enqueueBatch_guarded hm, trivial⟩
  | (dispatch .., _)     => exact Prog.guarded_bind.mpr ⟨Manager.enqueueJob_guarded hm, trivial⟩
  | (requeue q, _)       => exact Prog.guarded_bind.mpr ⟨Requeue.program_guarded ⟨h, ha⟩, trivial⟩
  | (other _, _)         => exact ⟨IsOther.permits ha, trivial⟩

section

-- A registry with a schema that only accepts the empty object.
def Registry.sample : Registry :=
  Registry.new.register "email.send" 1 fun payload =>
    if payload = "\x7b\x7d" then .ok () else .error (.invalid "unexpected field")

def submission : Intake × (Nat → Fault) :=
  (.enqueueJob (.plain "email.send") "job-1", fun _ => .none)

end

end JobPlatform
