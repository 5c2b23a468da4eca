import JobPlatform.Service.Validation
import JobPlatform.Store.States
import JobPlatform.System.Footprint
import JobPlatform.Worker.Precedence

namespace JobPlatform

-- What is to be done for a job, and on whose behalf.
structure Mandate where
  task             : Task
  tenantID         : String
  idempotencyKey   : String
  workflowID       : String
  parentJobID      : String
  dependencyPolicy : DependencyFailurePolicy
  maxAttempts      : Option Int
  timeoutSeconds   : Int
  deriving DecidableEq

def JobHash.mandate (h : JobHash) : Mandate where
  task             := h.task
  tenantID         := h.tenantID
  idempotencyKey   := h.idempotencyKey
  workflowID       := h.workflowID
  parentJobID      := h.parentJobID
  dependencyPolicy := h.dependencyPolicy
  maxAttempts      := h.maxAttempts
  timeoutSeconds   := h.timeoutSeconds

def Job.mandate (job : Job) : Mandate where
  task             := job.task
  tenantID         := job.tenantID
  idempotencyKey   := job.idempotencyKey
  workflowID       := job.workflowID
  parentJobID      := job.parentJobID
  dependencyPolicy := job.dependencyPolicy
  maxAttempts      := some job.maxAttempts
  timeoutSeconds   := job.timeoutSeconds

-- Where the job waits, and on what it works, is all that can be changed.
def Mandate.assign (m : Mandate) (job : Job) : Mandate :=
  { m with task := { m.task with queue := job.queue, payload := job.payload, priority := job.priority } }

def Mandate.replay (m : Mandate) (req : DeadLetterReplayRequest) : Mandate :=
  { m with
    task := { m.task with
      queue    := if req.queue ≠ "" then req.queue else m.task.queue
      payload  := if req.payload ≠ "" then req.payload else m.task.payload
      priority := req.priority.getD m.task.priority
    }
  }

-- The procedures that have been started.
abbrev Operations :=
  Operation → Prop

namespace Operations

variable (ops : Operations) (j : JobID)

-- Somebody has asked for the job.
def Submits (m : Mandate) : Prop :=
  ∃ manager req now, ops (.enqueueJob manager req j) ∧ Manager.accepts manager req = .ok () ∧
    m = (buildJob now req j).mandate

-- The job is done as it has been asked for, or as it has been replayed.
def Derives (m m' : Mandate) : Prop :=
  m' = m ∨ ∃ req, ops (.replayDeadLetters req) ∧ j ∈ req.jobIDs ∧ m' = m.replay req

end Operations

namespace Postgres

def mandates (p : Postgres) (j : JobID) : Option Mandate :=
  (p.jobs j).map Job.mandate

variable {p p' : Postgres} {job : Job} {j : JobID} {dependencies : List JobID} {f : Job → Job} {c : RepoCall}
         {m : Mandate}

theorem mandates_eq_some : p.mandates j = some m ↔ ∃ row, p.jobs j = some row ∧ row.mandate = m :=
  Option.map_eq_some_iff

theorem updateJob_mandates (hf : ∀ row, (f row).mandate = row.mandate) : (p.updateJob j f).mandates = p.mandates := by
  funext k
  unfold mandates
  rw [updateJob_jobs]
  split
  case isTrue  => simp [Function.comp_def, hf]
  case isFalse => rfl

-- What a call does to what has been asked for.
def Records (p p' : Postgres) : Option Job → Prop
  | none     => p'.mandates = p.mandates
  | some job => p'.mandates = p.mandates ∨
    p.mandates job.id = none ∧ p'.mandates = Function.update p.mandates job.id (some job.mandate)

theorem Inserted.records (h : Inserted job dependencies p p') : p.Records p' (some job) := by
  refine .inr ⟨by simp [mandates, h.absent], ?_⟩
  funext k
  rw [mandates, h.jobs, Function.update_apply, Function.update_apply]
  split <;> rfl

theorem exec_records : p.Records (p.exec c).1 (creates c) := by
  cases c
  case createJobBundle job dependencies =>
    exact createJobBundle_rule (Q := fun p' => p.Records p' (some job)) (.inl rfl) fun _ hs =>
      (storeTx_inserted hs).records
  case createJobWithIdempotency job dependencies dedupeWindow =>
    exact createJobWithIdempotency_rule (Q := fun p' => p.Records p' (some job)) (.inl rfl) fun _ hs =>
      (storeTx_inserted hs).records
  case upsertJobAttempt         =>
    unfold exec upsertJobAttempt
    dsimp only
    split <;> rfl
  case upsertDeadLetter         =>
    unfold exec upsertDeadLetter
    dsimp only
    split <;> rfl
  all_goals first | exact updateJob_mandates fun _ => rfl | rfl

end Postgres

-- The rows of jobs that a process has seen, and what they ask for.
abbrev Sources :=
  Set (JobID × Mandate)

namespace Provenance

-- The jobs that a call tells a process about.
def told : (c : Call) → c.Resp → List Job
  | .repo (.createJobBundle job _),        .ok ()     => [job]
  | .repo (.createJobWithIdempotency ..),  .ok result => if result.duplicateSuppressed then [] else [result.job]
  | .repo (.getJob _),                     .ok job    => [job]
  | .repo (.listDependentJobs _),          .ok jobs   => jobs
  | _,                                     _          => []

def sources (jobs : List Job) : Sources :=
  { x | ∃ job ∈ jobs, x = (job.id, job.mandate) }

end Provenance

-- A process passes on only what it has been told, or has been started to ask for.
abbrev Provenance (ops : Operations) : Protocol Call Call.Resp where
  State := Sources
  Allows
    | q, .broker (.enqueue job _) => (job.id, job.mandate) ∈ q
    | q, .broker (.retry job _)   => ∃ m, (job.id, m) ∈ q ∧ ops.Derives job.id m (m.assign job)
    | _, .repo c                  => ∀ job ∈ Postgres.creates c, ops.Submits job.id job.mandate
    | _, _                        => True
  Expected c r := ∃ faults w, w.postgres.Relational ∧ (World.tryExec faults w c).2 = r
  next q c r   := q ∪ Provenance.sources (Provenance.told c r)

namespace Provenance

variable {ops : Operations} {q q' : Sources} {c : Call} {job : Job} {j : JobID} {jobs : List Job} {now : Time}
         {α β : Type} {p : Program α} {m : Mandate}

theorem mem_sources (h : job ∈ jobs) : (job.id, job.mandate) ∈ sources jobs :=
  ⟨job, h, rfl⟩

@[simp]
theorem sources_nil : sources [] = ∅ := by
  simp [sources]

theorem told_error {c : RepoCall} {e : Error} : told (.repo c) (.error e) = [] := by
  cases c <;> rfl

-- Calls which do not tell anything about rows may be made at any time, unless they pass something on.
theorem stays (ha : (Provenance ops).Allows q c) (ht : ∀ r, told c r = []) :
    (Provenance ops).Allows q c ∧ ∀ r, (Provenance ops).next q c r = q :=
  ⟨ha, fun r => by simp [ht]⟩

theorem works (q : Sources) (c : Call) (hc : Runtime.Works c) :
    (Provenance ops).Allows q c ∧ ∀ r, (Provenance ops).next q c r = q := by
  cases c
  case broker c =>
    cases c
    case enqueue => exact hc.elim
    case retry   => exact hc.elim
    all_goals exact stays trivial fun _ => rfl
  case repo c   =>
    cases c
    case createJobBundle          => exact hc.elim
    case createJobWithIdempotency => exact hc.elim
    case getJob                   => exact hc.elim
    case listDependentJobs        => exact hc.elim
    all_goals exact stays (by simp [Postgres.creates]) fun _ => rfl
  all_goals exact stays trivial fun _ => rfl

theorem sweeps (c : Call) (hc : Scheduler.Sweeps c) :
    (Provenance ops).Allows q c ∧ ∀ r, (Provenance ops).next q c r = q := by
  cases c
  case broker c =>
    cases c
    case enqueue => exact hc.elim
    case retry   => exact hc.elim
    all_goals exact stays trivial fun _ => rfl
  case repo c   =>
    cases c
    case createJobBundle          => exact hc.elim
    case createJobWithIdempotency => exact hc.elim
    case getJob                   => exact hc.elim
    case listDependentJobs        => exact hc.elim
    all_goals exact stays (by simp [Postgres.creates]) fun _ => rfl
  all_goals exact stays trivial fun _ => rfl

-- The calls that pass on nothing, whatever they tell.
def Reads : Call → Prop
  | .broker (.enqueue ..) => False
  | .broker (.retry ..)   => False
  | .repo c               => Postgres.creates c = none
  | _                     => True

theorem reads (hc : Reads c) : (Provenance ops).Allows q c := by
  cases c
  case broker c => cases c <;> first | exact hc.elim | trivial
  case repo c   =>
    have hc : Postgres.creates c = none := hc
    exact fun job hj => by simp [hc] at hj
  all_goals trivial

-- What has been told is not forgotten.
theorem follows_of_reads (h : p.Only Reads) : p.Follows (Provenance ops) (fun _ q' => q ⊆ q') q :=
  h.follows_invariant (I := (q ⊆ ·)) (fun _ _ hq hc => ⟨reads hc, fun _ => hq.trans Set.subset_union_left⟩) subset_rfl

theorem ends_of_reads (h : p.Only Reads) : p.Follows (Provenance ops) (fun _ _ => True) q :=
  (follows_of_reads h).mono fun _ _ _ => trivial

section

theorem readinessOf_reads {policy : DependencyFailurePolicy} {count : Nat} {dependencies : List JobDependency}
    {allSatisfied : Bool} : (Worker.readinessOf policy count dependencies allSatisfied).Only Reads := by
  induction dependencies generalizing allSatisfied
  case nil        => trivial
  case cons _ _ hi =>
    refine ⟨rfl, fun res => ?_⟩
    cases res
    case error => trivial
    case ok    =>
      cases policy
      case allowFailed => exact hi
      case block       =>
        simp only [Prog.ret_bind]
        split
        case isTrue  => trivial
        case isFalse => exact hi

theorem dependencyReadiness_reads {dependencies : List JobDependency} :
    (Worker.dependencyReadiness job dependencies).Only Reads := by
  unfold Worker.dependencyReadiness
  split
  case isTrue  => trivial
  case isFalse => exact readinessOf_reads

theorem subset_next {r : c.Resp} : q ⊆ (Provenance ops).next q c r :=
  Set.subset_union_left

theorem markJobQueued_follows (hq : q ⊆ q') :
    (Prog.call (.repo (.markJobQueued job)) fun _ => .ret () : Program Unit).Follows (Provenance ops)
      (fun _ q' => q ⊆ q') q' := by
  have hr : (Prog.call (.repo (.markJobQueued job)) fun _ => .ret () : Program Unit).Only Reads :=
    ⟨rfl, fun _ => trivial⟩
  exact (follows_of_reads hr).mono fun _ _ hs => hq.trans hs

-- A dependent is passed on as it has been listed.
theorem resolveDependent (hq : (job.id, job.mandate) ∈ q) :
    (Worker.resolveDependent job now).Follows (Provenance ops) (fun _ q' => q ⊆ q') q := by
  refine ⟨by simp [Postgres.creates], fun res _ => ?_⟩
  cases res
  case error             => exact subset_next
  case ok dependencies _ =>
    refine .bind (p := Worker.dependencyReadiness job dependencies) ?_
    refine (follows_of_reads dependencyReadiness_reads).mono fun res q' hq' => ?_
    obtain ⟨ready, blockedReason⟩ := res
    have hq' : q ⊆ q' := subset_next.trans hq'
    cases ready
    case true  =>
      refine ⟨trivial, fun t _ => ⟨.inl (hq' hq), fun res _ => ?_⟩⟩
      have hs : q ⊆ (Provenance ops).next ((Provenance ops).next q' .now t)
          (.broker (.enqueue (Worker.releasedJob job now) t)) res := (hq'.trans subset_next).trans subset_next
      cases res
      case error => exact hs
      case ok    => exact markJobQueued_follows hs
    case false =>
      simp only [Bool.false_eq_true, if_false]
      split
      all_goals
        split
        case isTrue  => exact hq'
        case isFalse => exact markJobQueued_follows hq'

theorem resolveAll (hq : ∀ job ∈ jobs, (job.id, job.mandate) ∈ q) :
    (Worker.resolveAll now jobs).Follows (Provenance ops) (fun _ _ => True) q := by
  induction jobs generalizing q
  case nil                    => trivial
  case cons dependent rest hi =>
    have ⟨hd, hr⟩ := List.forall_mem_cons.mp hq
    unfold Worker.resolveAll
    split
    case isTrue  => exact .bind ((resolveDependent hd).mono fun _ q' hs => hi fun job hj => hs (hr job hj))
    case isFalse => exact hi hr

theorem resolveDependents : (Worker.resolveDependents job now).Follows (Provenance ops) (fun _ _ => True) q := by
  refine ⟨by simp [Postgres.creates], fun res _ => ?_⟩
  cases res
  case error   => trivial
  case ok jobs _ => exact resolveAll fun job hj => .inr (mem_sources hj)

end

theorem retryJob : (Manager.retryJob j).Follows (Provenance ops) (fun _ _ => True) q := by
  refine ⟨by simp [Postgres.creates], fun res _ => ?_⟩
  cases res
  case error  => trivial
  case ok job _ =>
    have hm : (job.id, job.mandate) ∈ (Provenance ops).next q (.repo (.getJob j)) (.ok job) :=
      .inr (mem_sources List.mem_cons_self)
    refine ⟨trivial, fun now _ => ⟨⟨job.mandate, .inl hm, .inl rfl⟩, fun res _ => ?_⟩⟩
    cases res
    case error => trivial
    case ok    =>
      refine ends_of_reads ⟨rfl, fun res => ?_⟩
      cases res
      case error => trivial
      case ok    => exact ⟨rfl, fun _ => trivial⟩

-- A row is found under its own identifier.
theorem getJob_id (h : (Provenance ops).Expected (.repo (.getJob j)) (.ok job)) : job.id = j := by
  obtain ⟨faults, w, hw, he⟩ := h
  have hj : w.postgres.getJob j = .ok job := (World.tryExec_repo he).right
  unfold Postgres.getJob at hj
  split at hj
  case h_1 hr => cases hj; exact hw.keyed _ _ hr
  case h_2    => cases hj

theorem replayAll {req : DeadLetterReplayRequest} {jobIDs : List JobID} (hr : ops (.replayDeadLetters req))
    (hj : ∀ j ∈ jobIDs, j ∈ req.jobIDs) :
    (Manager.replayAll req now jobIDs jobs).Follows (Provenance ops) (fun _ _ => True) q := by
  induction jobIDs generalizing q jobs
  case nil          => trivial
  case cons j _ hi =>
    have ⟨hj, hr'⟩ := List.forall_mem_cons.mp hj
    refine ⟨by simp [Postgres.creates], fun res hx => ?_⟩
    cases res
    case error  => trivial
    case ok job =>
      have hm : (job.id, job.mandate) ∈ (Provenance ops).next q (.repo (.getJob j)) (.ok job) :=
        .inr (mem_sources List.mem_cons_self)
      have hid := getJob_id hx
      refine ⟨⟨job.mandate, hm, .inr ⟨req, hr, hid ▸ hj, rfl⟩⟩, fun res _ => ?_⟩
      cases res
      case error => trivial
      case ok    =>
        refine ⟨by simp [Postgres.creates], fun res _ => ?_⟩
        cases res
        case error => trivial
        case ok    =>
          refine ⟨by simp [Postgres.creates], fun res _ => ?_⟩
          cases res
          case error => trivial
          case ok    => exact hi hr'

theorem cancelJob_reads : (Manager.cancelJob j).Only Reads := by
  refine ⟨rfl, fun res => ?_⟩
  cases res
  case error  => trivial
  case ok job =>
    refine ⟨trivial, fun res => ?_⟩
    cases res
    case error  => trivial
    case ok job =>
      refine ⟨trivial, fun _ => ⟨trivial, fun res => ?_⟩⟩
      cases res
      case error => trivial
      case ok    =>
        refine ⟨trivial, fun _ => ⟨rfl, fun res => ?_⟩⟩
        cases res
        case error => trivial
        case ok    => trivial

theorem createJob {manager : Manager} {req : JobRequest} (hs : ops.Submits job.id job.mandate) :
    (manager.createJob req job).Follows (Provenance ops)
      (fun res q' => ∀ result, res = .ok result → result.duplicateSuppressed = false →
        (result.job.id, result.job.mandate) ∈ q') q := by
  have hc : ∀ job' ∈ some job, ops.Submits job'.id job'.mandate := fun _ he => Option.mem_some.mp he ▸ hs
  unfold Manager.createJob
  dsimp only
  split
  case isTrue  =>
    refine ⟨hc, fun res _ result he hd => ?_⟩
    subst he
    exact .inr (mem_sources (by simp [told, hd]))
  case isFalse =>
    refine ⟨hc, fun res _ => ?_⟩
    cases res
    case error => exact fun _ he => nomatch he
    case ok    =>
      intro result he _
      cases he
      exact .inr (mem_sources List.mem_cons_self)

theorem enqueueJob {manager : Manager} {req : JobRequest} (hr : ops (.enqueueJob manager req j)) :
    (manager.enqueueJob req j).Follows (Provenance ops) (fun _ _ => True) q := by
  unfold Manager.enqueueJob
  split
  case h_1    => trivial
  case h_2 ha =>
    refine ⟨trivial, fun now _ => Prog.Follows.bind (p := manager.createJob req (buildJob now req j)) ?_⟩
    refine (createJob ⟨manager, req, now, hr, ha, rfl⟩).mono fun res q hq => ?_
    cases res
    case error     => trivial
    case ok result =>
      dsimp only
      split
      case isTrue     => trivial
      case isFalse hd =>
        refine ⟨trivial, fun _ _ => ⟨.inl (hq result rfl (by simpa using hd)), fun res _ => ?_⟩⟩
        cases res
        case error => trivial
        case ok    => trivial

-- A worker ends only leases which have been granted.
theorem dequeue_token {workerID : WorkerID} {queues : List QueueName} {leaseTTL : Duration} {lease : JobID × Token}
    (h : (Provenance ops).Expected (.broker (.dequeue workerID queues leaseTTL now)) (.ok (some lease))) :
    lease.2 ≠ "" := by
  obtain ⟨faults, w, _, hw⟩ := h
  exact RedisBroker.dequeueLua_token (Except.ok.inj (World.tryExec_broker hw))

end Provenance

theorem Operation.traced {ops : Operations} {op : Operation} (ho : ops op) :
    op.program.Follows (Provenance ops) (fun _ _ => True) ∅ := by
  have only {p : Program (Except Error Unit)} {ok : Call → Prop} (hp : p.Only ok)
      (hs : ∀ c, ok c → (Provenance ops).Allows ∅ c ∧ ∀ r, (Provenance ops).next ∅ c r = ∅) :
      p.Follows (Provenance ops) (fun _ _ => True) ∅ :=
    (hp.follows hs).mono fun _ _ _ => trivial
  cases op
  case enqueueJob        => exact .bind <| (Provenance.enqueueJob ho).mono fun _ _ _ => trivial
  case work              =>
    exact .bind <| (Runtime.work_follows Provenance.works (fun _ _ => Provenance.resolveDependents) fun _ _ _ =>
      Provenance.dequeue_token).mono fun _ _ _ => trivial
  case activateDue       => exact only Scheduler.activateDue_sweeps Provenance.sweeps
  case recoverExpired    => exact only Scheduler.recoverExpired_sweeps Provenance.sweeps
  case retryJob          => exact .bind <| Provenance.retryJob.mono fun _ _ _ => trivial
  case replayDeadLetters =>
    exact .bind <| Prog.Follows.mono (fun _ _ _ => trivial) ⟨trivial, fun _ _ => Provenance.replayAll ho fun _ => id⟩
  case cancelJob         => exact Provenance.ends_of_reads (Provenance.cancelJob_reads.bind fun _ => trivial)

end JobPlatform
