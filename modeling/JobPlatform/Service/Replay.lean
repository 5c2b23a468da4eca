import JobPlatform.Queue.Task
import JobPlatform.Service.Idempotency

namespace JobPlatform

-- The fields of a job in which its copies have to agree.
structure Copy where
  type            : String
  queue           : QueueName
  payload         : String
  priority        : Int
  attempts        : Int
  state           : JobState
  cancelRequested : Bool
  deriving DecidableEq

def JobHash.copy (h : JobHash) : Copy where
  type            := h.type
  queue           := h.queue
  payload         := h.payload
  priority        := h.priority
  attempts        := h.attempts
  state           := h.state
  cancelRequested := h.cancelRequested

def Job.copy (job : Job) : Copy where
  type            := job.type
  queue           := job.queue
  payload         := job.payload
  priority        := job.priority
  attempts        := job.attempts
  state           := job.state
  cancelRequested := job.cancelRequested

def Call.assigns (j : JobID) : Call → Prop
  | broker c => c.assigns j
  | _        => False

-- Anybody may have made calls, but none that enqueues or retries the job.
def World.Later (j : JobID) : World → World → Prop :=
  Relation.ReflTransGen fun w w' => ∃ faults c, ¬Call.assigns j c ∧ w' = (w.tryExec faults c).1

-- Both stores agree with the job that has been returned, and a worker which dequeues the job later
-- loads its type and its payload, and thus calls the right handler on them.
structure Delivered (w : World) (job : Job) : Prop where
  hash   : (w.redis.jobs job.id).map JobHash.copy = some job.copy
  row    : (w.postgres.jobs job.id).map Job.copy = some job.copy
  served : ∀ w' loaded, World.Later job.id w w' → RedisBroker.loadJob job.id w'.redis = .ok loaded →
    loaded.type = job.type ∧ loaded.payload = job.payload

-- The ways in which an operator puts jobs back into their queues.
inductive Requeue
  | retryJob (jobID : JobID)
  | replayDeadLetters (req : DeadLetterReplayRequest)

namespace Requeue

def program : Requeue → Program (Except Error (List Job))
  | retryJob jobID        => do return (← Manager.retryJob jobID).map ([·])
  | replayDeadLetters req => Manager.replayDeadLetters req

def jobIDs : Requeue → List JobID
  | retryJob jobID        => [jobID]
  | replayDeadLetters req => req.jobIDs

def edit : Requeue → Job → Time → Job
  | retryJob _            => Manager.retriedJob
  | replayDeadLetters req => Manager.replayedJob req

end Requeue

-- The overrides do not change the job.
structure DeadLetterReplayRequest.Keeps (req : DeadLetterReplayRequest) (row : Job) : Prop where
  queue    : req.queue = "" ∨ req.queue = row.queue
  payload  : req.payload = "" ∨ req.payload = row.payload
  jobType  : req.jobType = "" ∨ req.jobType = row.type
  priority : ∀ priority ∈ req.priority, priority = row.priority

-- The type that the hash of the job has, or else gets.
def Redis.typeOf (r : Redis) (jobID : JobID) : String :=
  ((r.jobs jobID).getD .empty).type

-- The hash has the type of the row. For a replay, nothing is overridden by another value, and nobody
-- has requested to cancel the job.
def Requeue.Faithful (w : World) (jobID : JobID) (row : Job) : Requeue → Prop
  | retryJob _            => w.redis.typeOf jobID = row.type
  | replayDeadLetters req => w.redis.typeOf jobID = row.type ∧ req.Keeps row ∧ row.cancelRequested = false

variable {w w' w₁ : World} {faults : Nat → Fault} {j jobID : JobID} {job row : Job} {jobs : List Job} {ids : List JobID}
         {now : Time} {q : Requeue} {req : DeadLetterReplayRequest}

theorem World.Later.tasks {t : Task} (hl : World.Later j w w') (ht : w.redis.tasks j = some t) :
    w'.redis.tasks j = some t := by
  have exec {w : World} {c : Call} (hc : ¬c.assigns j) (ht : w.redis.tasks j = some t) :
      (w.exec c).1.redis.tasks j = some t := by
    cases c
    case broker c =>
      have ⟨h, hj, _⟩ := Redis.tasks_eq_some.mp ht
      exact (RedisBroker.exec_tasks hc <| .inl (Option.isSome_of_eq_some hj)).trans ht
    all_goals exact ht
  induction hl
  case refl          => exact ht
  case tail hs hi    =>
    have ⟨faults, c, hc, he⟩ := hs
    rw [he]
    unfold World.tryExec
    split
    case h_1 => exact hi
    case h_2 => exact exec hc hi
    case h_3 => exact exec hc hi

-- The worker loads what the hash says now.
theorem delivered_iff : Delivered w job ↔
    (w.redis.jobs job.id).map JobHash.copy = some job.copy ∧ (w.postgres.jobs job.id).map Job.copy = some job.copy := by
  constructor
  case mp  => exact fun h => ⟨h.hash, h.row⟩
  case mpr =>
    intro ⟨hh, hr⟩
    refine ⟨hh, hr, fun w' loaded hl he => ?_⟩
    have ⟨h, hj, hc⟩ := Option.map_eq_some_iff.mp hh
    have ht : w.redis.tasks job.id = some h.task := Redis.tasks_eq_some.mpr ⟨h, hj, rfl⟩
    have ⟨h', hj', ht'⟩ := Redis.tasks_eq_some.mp (hl.tasks ht)
    simp only [RedisBroker.loadJob, hj', Except.ok.injEq] at he
    have htype : h.type = job.type := congrArg Copy.type hc
    have hpayload : h.payload = job.payload := congrArg Copy.payload hc
    rw [← he, ← htype, ← hpayload]
    exact ⟨congrArg Task.type ht', congrArg Task.payload ht'⟩

-- What a call that succeeds has done.

theorem broker_ok {c : BrokerCall} {a : c.Resp} (h : (broker c).run (World.tryExec faults) w = (w', .ok a)) :
    w'.redis = (w.broker.exec w.redis c).1 ∧ w'.postgres = w.postgres := by
  rw [broker, Prog.run_perform, World.tryExec] at h
  split at h
  case h_1 hf => cases hf; cases h
  case h_2 hf => cases hf; cases h
  case h_3    =>
    rw [World.exec_broker, Prod.mk.injEq] at h
    exact ⟨h.left ▸ rfl, h.left ▸ rfl⟩

theorem repo_ok {c : RepoCall} {a : c.Resp} (h : (repo c).run (World.tryExec faults) w = (w', .ok a)) :
    w'.redis = w.redis ∧ w'.postgres = (w.postgres.exec c).1 ∧ (w.postgres.exec c).2 = .ok a := by
  rw [repo, Prog.run_perform, World.tryExec] at h
  split at h
  case h_1 hf => cases hf; cases h
  case h_2 hf => cases hf; cases h
  case h_3    =>
    rw [World.exec_repo, Prod.mk.injEq] at h
    exact ⟨h.left ▸ rfl, h.left ▸ rfl, h.right⟩

theorem getJob_ok (h : (repo (.getJob jobID)).run (World.tryExec faults) w = (w', .ok job)) :
    w'.redis = w.redis ∧ w'.postgres = w.postgres ∧ w.postgres.jobs jobID = some job := by
  have ⟨hr, hp, hj⟩ := repo_ok h
  refine ⟨hr, hp, ?_⟩
  simp only [Postgres.exec, Postgres.getJob] at hj
  split at hj
  case h_1 row hrow => cases hj; exact hrow
  case h_2          => cases hj

theorem deleteDeadLetters_run :
    ((repo (.deleteDeadLetters ids)).run (World.tryExec faults) w).1.redis = w.redis ∧
    ((repo (.deleteDeadLetters ids)).run (World.tryExec faults) w).1.postgres.jobs = w.postgres.jobs := by
  rw [repo, Prog.run_perform, World.tryExec]
  split <;> exact ⟨rfl, rfl⟩

-- The job is put back into its queue, and then into its row.
structure Requeued (job : Job) (now : Time) (w w' : World) : Prop where
  redis    : w'.redis.jobs = (RedisBroker.retry job now w.redis).jobs
  postgres : w'.postgres.jobs = (w.postgres.markJobQueued job).jobs

-- Jobs are put back one after the other.
inductive Requeues (edit : Job → Job) (now : Time) : World → List JobID → World → List Job → Prop
  | nil {w : World} : Requeues edit now w [] w []
  | cons {w w₁ w' : World} {jobID : JobID} {row : Job} {rest : List JobID} {jobs : List Job} :
    w.postgres.jobs jobID = some row → Requeued (edit row) now w w₁ → Requeues edit now w₁ rest w' jobs →
    Requeues edit now w (jobID :: rest) w' (edit row :: jobs)

namespace Manager

-- The calls which both operations make.
theorem requeued_of_ok {w₂ : World} (hr : (broker (.retry job now)).run (World.tryExec faults) w = (w₁, .ok ()))
    (hp : (repo (.markJobQueued job)).run (World.tryExec faults) w₁ = (w₂, .ok ())) : Requeued job now w w₂ := by
  have ⟨hr, hr'⟩ := broker_ok hr
  have ⟨hp, hp', _⟩ := repo_ok hp
  constructor
  case redis    => rw [hp, hr]; rfl
  case postgres => rw [hp', hr']; rfl

theorem replayAll_requeues {acc : List Job}
    (h : (replayAll req now ids acc).run (World.tryExec faults) w = (w', .ok jobs)) :
    ∃ jobs', jobs = acc ++ jobs' ∧ Requeues (replayedJob req · now) now w ids w' jobs' := by
  induction ids generalizing w acc
  case nil                => cases h; exact ⟨[], by simp, .nil⟩
  case cons jobID rest hi =>
    simp only [replayAll, Prog.bind_eq, Prog.run_bind] at h
    generalize hg : (repo (.getJob jobID)).run (World.tryExec faults) w = x at h
    match x with
    | (_, .error _) => cases h
    | (w₁, .ok row) =>
      simp only [Prog.run_bind] at h
      generalize hr : (broker (.retry (replayedJob req row now) now)).run (World.tryExec faults) w₁ = x at h
      match x with
      | (_, .error _) => cases h
      | (w₂, .ok ())  =>
        simp only [Prog.run_bind] at h
        generalize hm : (repo (.markJobQueued (replayedJob req row now))).run (World.tryExec faults) w₂ = x at h
        match x with
        | (_, .error _) => cases h
        | (w₃, .ok ())  =>
          simp only [Prog.run_bind] at h
          have ⟨hd, hd'⟩ := @deleteDeadLetters_run w₃ faults [(replayedJob req row now).id]
          generalize (repo (.deleteDeadLetters [(replayedJob req row now).id])).run (World.tryExec faults) w₃ = x at h hd hd'
          match x with
          | (_, .error _) => cases h
          | (w₄, .ok ())  =>
            have ⟨hgr, hgp, hrow⟩ := getJob_ok hg
            have hq := requeued_of_ok hr hm
            have hq : Requeued (replayedJob req row now) now w w₄ :=
              ⟨by rw [hd, hq.redis, hgr], by rw [hd', hq.postgres, hgp]⟩
            have ⟨jobs', he, hrs⟩ := hi h
            exact ⟨_, by rw [he, List.append_assoc]; rfl, .cons hrow hq hrs⟩

theorem retryJob_requeues (h : (retryJob jobID).run (World.tryExec faults) w = (w', .ok job)) :
    ∃ now, Requeues (retriedJob · now) now w [jobID] w' [job] := by
  simp only [retryJob, Prog.bind_eq, Prog.run_bind] at h
  generalize hg : (repo (.getJob jobID)).run (World.tryExec faults) w = x at h
  match x with
  | (_, .error _) => cases h
  | (w₁, .ok row) =>
    have ht : timeNow.run (World.tryExec faults) w₁ = _ := timeNow_run
    simp only [Prog.run_bind] at h
    generalize timeNow.run (World.tryExec faults) w₁ = x at h ht
    subst ht
    generalize hr : (broker (.retry (retriedJob row w₁.now) w₁.now)).run (World.tryExec faults)
      { w₁ with calls := w₁.calls + 1 } = x at h
    match x with
    | (_, .error _) => cases h
    | (w₂, .ok ())  =>
      simp only [Prog.run_bind] at h
      generalize hm : (repo (.markJobQueued (retriedJob row w₁.now))).run (World.tryExec faults) w₂ = x at h
      match x with
      | (_, .error _) => cases h
      | (w₃, .ok ())  =>
        have ⟨hd, hd'⟩ := @deleteDeadLetters_run w₃ faults [jobID]
        have ⟨hgr, hgp, hrow⟩ := getJob_ok hg
        have hq := requeued_of_ok hr hm
        cases h
        refine ⟨w₁.now, .cons hrow ⟨?_, ?_⟩ .nil⟩
        · exact (congrArg Redis.jobs hd).trans (by rw [hq.redis, hgr])
        · exact hd'.trans (by rw [hq.postgres, hgp])

end Manager

theorem Requeue.requeues (h : q.program.run (World.tryExec faults) w = (w', .ok jobs)) :
    ∃ now w₀, w₀.redis = w.redis ∧ w₀.postgres = w.postgres ∧ Requeues (q.edit · now) now w₀ q.jobIDs w' jobs := by
  cases q
  case retryJob jobID        =>
    simp only [program, Prog.bind_eq, Prog.run_bind] at h
    generalize hr : (Manager.retryJob jobID).run (World.tryExec faults) w = x at h
    match x with
    | (_, .error _)  => cases h
    | (w₁, .ok job) =>
      cases h
      have ⟨now, hr⟩ := Manager.retryJob_requeues hr
      exact ⟨now, w, rfl, rfl, hr⟩
  case replayDeadLetters req =>
    simp only [program, Manager.replayDeadLetters, Prog.bind_eq, Prog.run_bind, timeNow_run] at h
    have ⟨jobs', he, hr⟩ := Manager.replayAll_requeues h
    exact ⟨w.now, { w with calls := w.calls + 1 }, rfl, rfl, by rwa [he, List.nil_append]⟩

-- What becomes of the copies of a job that is put back into its queue.
def hashCopy (w : World) (row edited : Job) : Copy :=
  { edited.copy with type := w.redis.typeOf row.id, cancelRequested := false }

def rowCopy (row edited : Job) : Copy :=
  { row.copy with attempts := edited.attempts, state := edited.state, cancelRequested := edited.cancelRequested }

-- What all the edits have in common.
structure IsEdit (edit : Job → Job) (now : Time) : Prop where
  id       : ∀ row, (edit row).id = row.id
  runAt    : ∀ row, (edit row).runAt = now
  attempts : ∀ row, (edit row).attempts = 0
  state    : ∀ row, (edit row).state = .queued
  copy     : ∀ row row', row'.copy = rowCopy row (edit row) → (edit row').copy = (edit row).copy

theorem Requeue.isEdit : IsEdit (q.edit · now) now := by
  constructor
  case copy =>
    intro row row' h
    have ht : row'.type = row.type                             := congrArg Copy.type h
    have hq : row'.queue = row.queue                           := congrArg Copy.queue h
    have hp : row'.payload = row.payload                       := congrArg Copy.payload h
    have hn : row'.priority = row.priority                     := congrArg Copy.priority h
    have hc : row'.cancelRequested = (q.edit row now).cancelRequested := congrArg Copy.cancelRequested h
    cases q
    case retryJob          => simp [edit, Manager.retriedJob, Job.copy, ht, hq, hp, hn]
    case replayDeadLetters =>
      have hc : row'.cancelRequested = row.cancelRequested := hc
      simp [edit, Manager.replayedJob, Job.copy, ht, hq, hp, hn, hc]
  all_goals cases q <;> exact fun _ => rfl

section

variable {edit : Job → Job}

-- The row of the job, and what has become of its copies.
structure Written (edit : Job → Job) (w w' : World) (jobID : JobID) (row : Job) : Prop where
  read : w.postgres.jobs jobID = some row
  hash : (w'.redis.jobs jobID).map JobHash.copy = some (hashCopy w row (edit row))
  row  : (w'.postgres.jobs jobID).map Job.copy = some (rowCopy row (edit row))

structure Same (w w' : World) (jobID : JobID) : Prop where
  hash : w'.redis.jobs jobID = w.redis.jobs jobID
  row  : w'.postgres.jobs jobID = w.postgres.jobs jobID

namespace Requeued

variable (h : Requeued (edit row) now w w') (he : IsEdit edit now)

include h he

theorem same (hj : j ≠ row.id) : Same w w' j where
  hash := by rw [h.redis, (RedisBroker.retry_unchanged <| (he.id row).symm ▸ hj).jobs]
  row  := by
    rw [h.postgres, Postgres.markJobQueued, Postgres.updateJob, he.id]
    exact Function.update_of_ne hj ..

theorem written (hr : w.postgres.jobs row.id = some row) : Written edit w w' row.id row where
  read := hr
  hash := by
    have hj := @RedisBroker.retry_jobs w.redis (edit row) now
    simp only [he.id, he.runAt, lt_irrefl, if_false] at hj
    rw [h.redis, hj, Option.map_some, Option.some_inj]
    simp [JobHash.retry, JobHash.copy, hashCopy, Job.copy, Redis.typeOf, he.state]
  row  := by
    simp only [h.postgres, Postgres.markJobQueued, Postgres.updateJob, he.id, Function.update_self, hr, Option.map_some]
    rfl

theorem keyed (hk : ∀ i job, w.postgres.jobs i = some job → job.id = i) (hr : w.postgres.jobs row.id = some row) :
    ∀ i job, w'.postgres.jobs i = some job → job.id = i := by
  intro i job hj
  by_cases hi : i = row.id
  case neg => exact hk i job <| (h.same he hi).row ▸ hj
  case pos =>
    simp only [h.postgres, Postgres.markJobQueued, Postgres.updateJob, he.id, hi, Function.update_self, hr,
      Option.map_some, Option.some_inj] at hj
    rw [← hj, hi]

theorem typeOf (j : JobID) : w'.redis.typeOf j = w.redis.typeOf j := by
  unfold Redis.typeOf
  by_cases hj : j = row.id
  case neg => rw [(h.same he hj).hash]
  case pos =>
    have hj' := @RedisBroker.retry_jobs w.redis (edit row) now
    simp only [he.id, he.runAt, lt_irrefl, if_false] at hj'
    rw [hj, h.redis, hj']
    rfl

-- It makes no difference whether a job is put back once or twice.
theorem before {w₂ : World} {row' : Job} (hk : ∀ i job, w.postgres.jobs i = some job → job.id = i)
    (hr : w.postgres.jobs row.id = some row) (hw : Written edit w' w₂ j row') :
    ∃ row'', (edit row').copy = (edit row'').copy ∧ Written edit w w₂ j row'' := by
  have hid : row'.id = j := h.keyed he hk hr j row' hw.read
  by_cases hj : j = row.id
  case neg =>
    refine ⟨row', rfl, (h.same he hj).row ▸ hw.read, ?_, hw.row⟩
    rw [hw.hash, hashCopy, hashCopy, h.typeOf he]
  case pos =>
    have hrow : row'.copy = rowCopy row (edit row) := by
      have hc := (h.written he hr).row
      rw [← hj, hw.read] at hc
      exact Option.some_inj.mp hc
    have hc : (edit row').copy = (edit row).copy := he.copy row row' hrow
    refine ⟨row, hc, hj ▸ hr, ?_, ?_⟩
    · rw [hw.hash, hashCopy, hashCopy, h.typeOf he, hc, hid, hj]
    · rw [hw.row, rowCopy, rowCopy, hrow, rowCopy]
      have hcc : (edit row').cancelRequested = (edit row).cancelRequested := congrArg Copy.cancelRequested hc
      rw [he.attempts, he.attempts, he.state, he.state, hcc]

end Requeued

-- What an operation that succeeds has done.
structure Requeues.Result (edit : Job → Job) (w : World) (ids : List JobID) (w' : World) (jobs : List Job) : Prop where
  all      : ∀ jobID ∈ ids, ∃ job ∈ jobs, job.id = jobID
  returned : ∀ job ∈ jobs, job.id ∈ ids ∧ ∃ row, job.copy = (edit row).copy ∧ Written edit w w' job.id row
  others   : ∀ jobID ∉ ids, Same w w' jobID

theorem Requeues.result (he : IsEdit edit now) (hk : ∀ i job, w.postgres.jobs i = some job → job.id = i)
    (h : Requeues edit now w ids w' jobs) : Result edit w ids w' jobs := by
  induction h
  case nil => exact ⟨by simp, by simp, fun _ _ => ⟨rfl, rfl⟩⟩
  case cons w w₁ w' jobID row rest jobs hr hq _ hi =>
    have hid : row.id = jobID := hk jobID row hr
    subst hid
    have hi := hi (hq.keyed he hk hr)
    constructor
    case all =>
      refine List.forall_mem_cons.mpr ⟨⟨_, List.mem_cons_self, he.id row⟩, fun k hm => ?_⟩
      have ⟨job, hj, hid⟩ := hi.all k hm
      exact ⟨job, List.mem_cons_of_mem _ hj, hid⟩
    case returned =>
      have later {j : JobID} {row' : Job} (hw : Written edit w₁ w' j row') := hq.before he hk hr hw
      refine List.forall_mem_cons.mpr ⟨?_, fun job hj => ?_⟩
      · rw [he.id]
        refine ⟨List.mem_cons_self, ?_⟩
        by_cases hm : row.id ∈ rest
        case pos =>
          have ⟨job, hj, hid⟩ := hi.all row.id hm
          have ⟨_, row', _, hw⟩ := hi.returned job hj
          have ⟨row'', _, hw⟩ := later hw
          have he : row'' = row := Option.some_inj.mp <| hw.read.symm.trans (hid ▸ hr)
          rw [he, hid] at hw
          exact ⟨row, rfl, hw⟩
        case neg =>
          have ho := hi.others row.id hm
          have hw := hq.written he hr
          exact ⟨row, rfl, hw.read, ho.hash ▸ hw.hash, ho.row ▸ hw.row⟩
      · have ⟨hm, row', hc, hw⟩ := hi.returned job hj
        have ⟨row'', hc', hw⟩ := later hw
        exact ⟨List.mem_cons_of_mem _ hm, row'', hc.trans hc', hw⟩
    case others =>
      intro k hk
      rw [List.mem_cons, not_or] at hk
      have hs := hq.same he hk.left
      have ho := hi.others k hk.right
      exact ⟨ho.hash.trans hs.hash, ho.row.trans hs.row⟩

theorem Written.delivered_iff (hw : Written edit w w' job.id row) (hc : job.copy = (edit row).copy) :
    Delivered w' job ↔ hashCopy w row (edit row) = (edit row).copy ∧ rowCopy row (edit row) = (edit row).copy := by
  rw [JobPlatform.delivered_iff, hw.hash, hw.row, hc, Option.some_inj, Option.some_inj]

end

theorem DeadLetterReplayRequest.keeps_iff : req.Keeps row ↔
    (¬req.jobType = "" → row.type = req.jobType) ∧ (¬req.queue = "" → row.queue = req.queue) ∧
    (¬req.payload = "" → row.payload = req.payload) ∧ row.priority = req.priority.getD row.priority := by
  constructor
  case mp  =>
    intro h
    refine ⟨fun hn => ?_, fun hn => ?_, fun hn => ?_, ?_⟩
    · exact (h.jobType.resolve_left hn).symm
    · exact (h.queue.resolve_left hn).symm
    · exact (h.payload.resolve_left hn).symm
    · cases hp : req.priority
      case none   => rfl
      case some p => exact (h.priority p hp).symm
  case mpr =>
    intro ⟨ht, hq, hp, hn⟩
    constructor
    case jobType  => exact or_iff_not_imp_left.mpr fun h => (ht h).symm
    case queue    => exact or_iff_not_imp_left.mpr fun h => (hq h).symm
    case payload  => exact or_iff_not_imp_left.mpr fun h => (hp h).symm
    case priority =>
      intro p hm
      rw [Option.mem_def.mp hm] at hn
      exact hn.symm

-- The copies agree exactly if nothing is overridden by another value.
theorem Requeue.faithful_iff (hid : row.id = jobID) :
    hashCopy w row (q.edit row now) = (q.edit row now).copy ∧ rowCopy row (q.edit row now) = (q.edit row now).copy ↔
    q.Faithful w jobID row := by
  cases q
  case retryJob          => simp [hashCopy, rowCopy, edit, Manager.retriedJob, Job.copy, Faithful, hid]
  case replayDeadLetters req =>
    have ht (hk : req.Keeps row) : (if req.jobType = "" then row.type else req.jobType) = row.type := by
      split
      case isTrue    => rfl
      case isFalse h => exact hk.jobType.resolve_left h
    simp only [hashCopy, rowCopy, edit, Manager.replayedJob, Job.copy, Faithful, hid, Copy.mk.injEq, ite_not, and_true,
      true_and, left_eq_ite_iff, ← DeadLetterReplayRequest.keeps_iff]
    constructor
    case mp  =>
      intro ⟨⟨hy, hc⟩, hk⟩
      exact ⟨hy.trans (ht hk), hk, hc.symm⟩
    case mpr =>
      intro ⟨hy, hk, hc⟩
      exact ⟨⟨hy.trans (ht hk).symm, hc.symm⟩, hk⟩

-- What an operator gets back has reached both stores exactly if the overrides change nothing, the
-- hashes have the types of the rows, and none of the jobs has been requested to be canceled.
theorem requeue_delivers_iff (hw : w.Reachable)
    (h : q.program.run (World.tryExec faults) w = (w', .ok jobs)) :
    (∀ job ∈ jobs, Delivered w' job) ↔ ∀ jobID ∈ q.jobIDs, ∀ row ∈ w.postgres.jobs jobID, q.Faithful w jobID row := by
  have ⟨now, w₀, hr, hp, hq⟩ := Requeue.requeues h
  have hk : ∀ i job, w₀.postgres.jobs i = some job → job.id = i := hp ▸ hw.recorded.keyed
  have res := hq.result Requeue.isEdit hk
  have faithful {jobID : JobID} {row : Job} (hid : row.id = jobID) : hashCopy w₀ row (q.edit row now) = (q.edit row now).copy ∧
      rowCopy row (q.edit row now) = (q.edit row now).copy ↔ q.Faithful w jobID row := by
    rw [hashCopy, hr, ← hashCopy]
    exact Requeue.faithful_iff hid
  constructor
  case mp  =>
    intro hd jobID hm row hrow
    have ⟨job, hj, hid⟩ := res.all jobID hm
    have ⟨_, row', hc, hw⟩ := res.returned job hj
    have hread : w₀.postgres.jobs job.id = some row := by rw [hp, hid]; exact hrow
    have he : row' = row := Option.some_inj.mp <| hw.read.symm.trans hread
    subst he
    exact (faithful (hid ▸ hk _ _ hread)).mp <| (hw.delivered_iff hc).mp (hd job hj)
  case mpr =>
    intro hf job hj
    have ⟨hm, row, hc, hw⟩ := res.returned job hj
    have hf := hf job.id hm row (hp ▸ hw.read)
    exact (hw.delivered_iff hc).mpr <| (faithful (hk _ _ hw.read)).mpr hf

theorem World.After.run {α : Type} (p : Program α) (h : w₁.After w) : w₁.After (p.run (World.tryExec faults) w).1 := by
  have step (w : World) (c : Call) (h : w₁.After w) : w₁.After (w.tryExec faults c).1 := h.tail ⟨faults, c, rfl⟩
  exact p.run_preserves step h

-- A job has been enqueued.
def enqueued : World :=
  ((Manager.sample.enqueueJob (.plain "email.send") "job-1").run (World.tryExec fun _ => .none)
    (.started .sample .sample)).1

theorem enqueued_reachable : enqueued.Reachable :=
  ⟨_, _, .run _ .refl⟩

def replayAs (jobType : String) : Requeue :=
  .replayDeadLetters { jobIDs := ["job-1"], queue := "", payload := "", jobType, priority := none }

def replayedAs (jobType : String) : World × Except Error (List Job) :=
  (replayAs jobType).program.run (World.tryExec fun _ => .none) enqueued

theorem requeue_delivers_iff_sample :
    (∀ job ∈ (replayedAs "").2.toOption.getD [], Delivered (replayedAs "").1 job) ↔
    ∀ jobID ∈ ["job-1"], ∀ row ∈ enqueued.postgres.jobs jobID, (replayAs "").Faithful enqueued jobID row := by
  have h : (replayAs "").program.run (World.tryExec fun _ => .none) enqueued =
      ((replayedAs "").1, .ok ((replayedAs "").2.toOption.getD [])) := Prod.ext rfl (by decide +kernel)
  exact requeue_delivers_iff enqueued_reachable h

-- The job is returned with its new type, but both stores still have the old one.
theorem not_delivered_of_jobType :
    let (w, res) := replayedAs "report.generate"
    let jobs     := res.toOption.getD []
    jobs.map (·.type) = ["report.generate"] ∧ (w.redis.jobs "job-1").map (·.type) = some "email.send" ∧
    (w.postgres.jobs "job-1").map (·.type) = some "email.send" ∧ ¬∀ job ∈ jobs, Delivered w job := by
  refine ⟨by decide +kernel, by decide +kernel, by decide +kernel, fun h => ?_⟩
  have hne : (replayedAs "report.generate").2.toOption.getD [] ≠ [] := by decide +kernel
  have hd : ∀ job ∈ (replayedAs "report.generate").2.toOption.getD [],
      ((replayedAs "report.generate").1.redis.jobs job.id).map JobHash.copy ≠ some job.copy := by decide +kernel
  have ⟨job, hj⟩ := List.exists_mem_of_ne_nil _ hne
  exact hd job hj (h job hj).hash

end JobPlatform
