import JobPlatform.Service.Replay
import JobPlatform.Store.States
import JobPlatform.System.Footprint

namespace JobPlatform

namespace World

variable {w : World} {faults : Nat → Fault}

-- Only a call that has been executed is answered.
theorem tryExec_broker {c : BrokerCall} {a : c.Resp} (h : (w.tryExec faults (.broker c)).2 = .ok a) :
    (w.broker.exec w.redis c).2 = .ok a := by
  unfold tryExec at h
  split at h
  case h_1 hf => cases hf; cases h
  case h_2 hf => cases hf; cases h
  case h_3    => exact h

theorem tryExec_repo {c : RepoCall} {a : c.Resp} (h : (w.tryExec faults (.repo c)).2 = .ok a) :
    (w.tryExec faults (.repo c)).1.postgres = (w.postgres.exec c).1 ∧ (w.postgres.exec c).2 = .ok a := by
  have hr : (JobPlatform.repo c).run (tryExec faults) w = ((w.tryExec faults (.repo c)).1, .ok a) := Prod.ext rfl h
  exact (repo_ok hr).right

end World

-- Whether a dependency in the given state lets its dependents run.
def DependencyFailurePolicy.accepts (s : JobState) : DependencyFailurePolicy → Bool
  | block       => s = .completed
  | allowFailed => s = .completed ∨ s = .failed ∨ s = .canceled

namespace Preceding

-- A dependent and its policy.
abbrev Dependent := JobID × DependencyFailurePolicy

-- A process which has stored a new job passes it to the broker. One which has listed the blocked dependents of a
-- job handles them one after the other. It goes through the dependencies of each as long as these are finished.
inductive State
  | idle
  | created (jobID : JobID) (state : JobState)
  | listed (dependents : List Dependent)
  | checking (dependent : Dependent) (awaited : List JobID) (rest : List Dependent)
  deriving DecidableEq

-- The dependents which are still to be handled.
def State.pending : State → List Dependent
  | listed dependents => dependents
  | checking _ _ rest => rest
  | _                 => []

-- A job without dependencies may run at once.
def Blocks (job : Job) (dependencies : List JobID) : Prop :=
  job.state = .blocked ∨ ∀ d ∈ dependencies, d = ""

end Preceding

-- Dependents are passed to the broker when all of their dependencies have been found to be finished.
abbrev Preceding : Protocol Call Call.Resp where
  State := Preceding.State
  Allows
    | .created j s,          .broker (.enqueue job _)             => job.id = j ∧ job.state = s ∧ job.leaseToken = ""
    | .checking d awaited _, .broker (.enqueue job _)             => job.id = d.1 ∧ awaited = []
    | _,                     .broker (.enqueue ..)                => False
    | _,                     .broker (.complete _ leaseToken ..)  => leaseToken ≠ ""
    | _,                     .broker (.fail _ leaseToken ..)      => leaseToken ≠ ""
    | _,                     .broker (.requeueThrottled _ leaseToken ..) => leaseToken ≠ ""
    | q,                     .repo (.createJobBundle job dependencies) =>
      q = .idle ∧ Preceding.Blocks job dependencies
    | q,                     .repo (.createJobWithIdempotency job dependencies _) =>
      q = .idle ∧ Preceding.Blocks job dependencies
    | q,                     .repo (.listDependentJobs _)         => q = .idle
    | q,                     .repo (.listDependencies j)          => ∃ policy rest, q.pending = (j, policy) :: rest
    | .checking _ awaited _, .repo (.getJob j)                    => ∃ rest, awaited = j :: rest
    | _,                     _                                    => True
  Expected c r := ∃ faults w, (World.tryExec faults w c).2 = r
  next
    | .idle, .repo (.createJobBundle job _), .ok () => .created job.id job.state
    | .idle, .repo (.createJobWithIdempotency ..), .ok result =>
      if result.duplicateSuppressed then .idle else .created result.job.id result.job.state
    | .idle, .repo (.listDependentJobs _), .ok jobs =>
      .listed ((jobs.filter (·.state = .blocked)).map fun job => (job.id, job.dependencyPolicy))
    | q, .repo (.listDependencies _), .ok dependencies =>
      match q.pending with
      | dependent :: rest => .checking dependent (dependencies.map (·.dependsOnJobID)) rest
      | []                => q
    | q, .repo (.listDependencies _), .error _ =>
      match q.pending with
      | _ :: rest => .listed rest
      | []        => q
    | .checking dependent awaited rest, .repo (.getJob _), .ok job =>
      if dependent.2.accepts job.state then .checking dependent awaited.tail rest else .listed rest
    | .checking _ _ rest, .repo (.getJob _),    .error _ => .listed rest
    | .checking _ _ rest, .broker (.enqueue ..), _       => .listed rest
    | .created ..,        .broker (.enqueue ..), _       => .idle
    | q,                  _,                     _       => q

namespace Preceding

variable {q : State} {α : Type} {p : Program α} {job : Job} {now : Time} {rest : List Dependent} {d : Dependent}

theorem works (q : State) (c : Call) (hc : Runtime.Works c) : Preceding.Allows q c ∧ ∀ r, Preceding.next q c r = q := by
  cases c
  case broker c =>
    cases c
    case enqueue      => exact hc.elim
    case retry        => exact hc.elim
    case cancelLoaded => exact hc.elim
    case activateDue  => exact hc.elim
    case recoverExpired => exact hc.elim
    all_goals exact ⟨by cases q <;> exact hc, fun _ => by cases q <;> rfl⟩
  case repo c   =>
    cases c
    case createJobBundle          => exact hc.elim
    case createJobWithIdempotency => exact hc.elim
    case getJob                   => exact hc.elim
    case listDependentJobs        => exact hc.elim
    case listDependencies         => exact hc.elim
    case markJobQueued            => exact hc.elim
    case markJobCanceled          => exact hc.elim
    case deleteDeadLetters        => exact hc.elim
    all_goals exact ⟨by cases q <;> trivial, fun _ => by cases q <;> rfl⟩
  all_goals exact ⟨by cases q <;> trivial, fun _ => by cases q <;> rfl⟩

theorem sweeps (c : Call) (hc : Scheduler.Sweeps c) : Preceding.Allows .idle c ∧ ∀ r, Preceding.next .idle c r = .idle := by
  cases c
  case now        => exact ⟨trivial, fun _ => rfl⟩
  case heartbeats => exact hc.elim
  case limiter    => exact hc.elim
  case broker c   => cases c <;> first | exact hc.elim | exact ⟨trivial, fun _ => rfl⟩
  case repo c     => cases c <;> first | exact hc.elim | exact ⟨trivial, fun _ => rfl⟩

theorem operates (c : Call) (hc : Manager.Operates c) :
    Preceding.Allows .idle c ∧ ∀ r, Preceding.next .idle c r = .idle := by
  cases c
  case now        => exact ⟨trivial, fun _ => rfl⟩
  case heartbeats => exact hc.elim
  case limiter    => exact hc.elim
  case broker c   => cases c <;> first | exact hc.elim | exact ⟨trivial, fun _ => rfl⟩
  case repo c     => cases c <;> first | exact hc.elim | exact ⟨trivial, fun _ => rfl⟩

-- Once a dependency is not finished, the dependent is not released any more.
theorem readinessOf_listed {count : Nat} {dependencies : List JobDependency} {policy : DependencyFailurePolicy} :
    (Worker.readinessOf policy count dependencies false).Follows Preceding (fun res q => res.1 = false ∧ q = .listed rest)
      (.listed rest) := by
  induction dependencies
  case nil        => exact ⟨rfl, rfl⟩
  case cons _ _ hi =>
    refine ⟨trivial, fun res _ => ?_⟩
    cases res
    case error  => exact ⟨rfl, rfl⟩
    case ok job =>
      cases policy
      case allowFailed => exact hi
      case block       =>
        simp only [Prog.ret_bind]
        split
        case isTrue  => exact ⟨rfl, rfl⟩
        case isFalse => exact hi

theorem next_getJob {awaited : List JobID} {u j : JobID} :
    Preceding.next (.checking d (u :: awaited) rest) (.repo (.getJob j)) (.ok job) =
      if d.2.accepts job.state then .checking d awaited rest else .listed rest :=
  rfl

theorem next_createJobWithIdempotency {dependencies : List JobID} {dedupeWindow : Duration} {result : EnqueueResult} :
    Preceding.next .idle (.repo (.createJobWithIdempotency job dependencies dedupeWindow)) (.ok result) =
      if result.duplicateSuppressed then .idle else .created result.job.id result.job.state :=
  rfl

theorem readinessOf {count : Nat} {dependencies : List JobDependency} :
    (Worker.readinessOf d.2 count dependencies true).Follows Preceding
      (fun res q => if res.1 then q = .checking d [] rest else q = .listed rest)
      (.checking d (dependencies.map (·.dependsOnJobID)) rest) := by
  have listed {dependencies : List JobDependency} : (Worker.readinessOf d.2 count dependencies false).Follows Preceding
      (fun res q => if res.1 then q = .checking d [] rest else q = .listed rest) (.listed rest) :=
    readinessOf_listed.mono fun res q hq => by
      rw [hq.left]
      exact hq.right
  induction dependencies
  case nil              => rfl
  case cons dep deps hi =>
    refine ⟨⟨_, rfl⟩, fun res _ => ?_⟩
    cases res
    case error  => rfl
    case ok job _ =>
      rw [List.map_cons, next_getJob]
      -- The loop goes on in the same way for both policies, unless the dependency has failed.
      have next : (Worker.readinessOf d.2 count deps (true && d.2.accepts job.state)).Follows Preceding
          (fun res q => if res.1 then q = .checking d [] rest else q = .listed rest)
          (if d.2.accepts job.state then .checking d (deps.map (·.dependsOnJobID)) rest else .listed rest) := by
        cases d.2.accepts job.state
        case true  => exact hi
        case false => exact listed
      cases hp : d.2
      case allowFailed =>
        rw [hp] at next
        exact next
      case block       =>
        rw [hp] at next
        by_cases hs : job.state = .failed ∨ job.state = .canceled
        case neg =>
          simp only [Prog.ret_bind, if_neg hs]
          exact next
        case pos =>
          have hn : DependencyFailurePolicy.block.accepts job.state = false := by
            obtain hs | hs := hs <;> simp [DependencyFailurePolicy.accepts, hs]
          simp only [Prog.ret_bind, if_pos hs, hn, Bool.false_eq_true, if_false]
          rfl

theorem dependencyReadiness {dependencies : List JobDependency} (hp : job.dependencyPolicy = d.2) :
    (Worker.dependencyReadiness job dependencies).Follows Preceding
      (fun res q => if res.1 then q = .checking d [] rest else q = .listed rest)
      (.checking d (dependencies.map (·.dependsOnJobID)) rest) := by
  unfold Worker.dependencyReadiness
  split
  case isTrue hd => subst hd; rfl
  case isFalse   => exact hp ▸ readinessOf

theorem next_listDependencies {j : JobID} {res : Except Error (List JobDependency)} (hq : q.pending = d :: rest) :
    Preceding.next q (.repo (.listDependencies j)) res =
      match res with
      | .error _ => .listed rest
      | .ok deps => .checking d (deps.map (·.dependsOnJobID)) rest := by
  cases q
  case idle     => cases hq
  case created  => cases hq
  case listed   => cases hq; cases res <;> rfl
  case checking => cases hq; cases res <;> rfl

theorem resolveDependent (hq : q.pending = (job.id, job.dependencyPolicy) :: rest) :
    (Worker.resolveDependent job now).Follows Preceding (fun _ q' => q'.pending = rest) q := by
  refine ⟨by cases q <;> exact ⟨_, _, hq⟩, fun res hres => ?_⟩
  rw [next_listDependencies hq]
  cases res
  case error           => rfl
  case ok dependencies =>
    refine .bind (p := Worker.dependencyReadiness job dependencies) ?_
    refine (dependencyReadiness (d := (job.id, job.dependencyPolicy)) rfl).mono fun res q hq => ?_
    obtain ⟨ready, blockedReason⟩ := res
    cases ready
    case true  =>
      cases hq
      refine ⟨trivial, fun t _ => ⟨⟨rfl, rfl⟩, fun res _ => ?_⟩⟩
      cases res
      case error => rfl
      case ok    => exact ⟨trivial, fun _ _ => rfl⟩
    case false =>
      cases hq
      dsimp only
      simp only [Bool.false_eq_true, if_false]
      split
      all_goals
        split
        case isTrue  => rfl
        case isFalse => exact ⟨trivial, fun _ _ => rfl⟩

theorem resolveAll {dependents : List Job}
    (hq : q.pending = (dependents.filter (·.state = .blocked)).map fun job => (job.id, job.dependencyPolicy)) :
    (Worker.resolveAll now dependents).Follows Preceding (fun _ _ => True) q := by
  induction dependents generalizing q
  case nil                    => trivial
  case cons dependent rest hi =>
    unfold Worker.resolveAll
    split
    case isTrue hb  =>
      rw [List.filter_cons_of_pos (by simpa using hb)] at hq
      exact .bind ((resolveDependent hq).mono fun _ q hq => hi hq)
    case isFalse hb =>
      rw [List.filter_cons_of_neg (by simpa using hb)] at hq
      exact hi hq

theorem resolveDependents : (Worker.resolveDependents job now).Follows Preceding (fun _ _ => True) .idle := by
  refine ⟨rfl, fun res _ => ?_⟩
  cases res
  case error => trivial
  case ok    => exact resolveAll rfl

-- A job that is created with a dependency is blocked.
theorem buildJob_blocks {req : JobRequest} {id : JobID} :
    Blocks (buildJob now req id) (sanitizeDependencies req.dependencies id) := by
  unfold Blocks
  rw [buildJob_state_eq]
  by_cases hd : 0 < req.dependencies.length
  case pos => exact .inl (if_pos hd)
  case neg =>
    have hd : req.dependencies = [] := by simpa using hd
    exact .inr (by simp [hd, sanitizeDependencies])

-- A new job is passed to the broker with the state that it has been stored with.
def Created (res : Except Error EnqueueResult) (q : State) : Prop :=
  ∀ result, res = .ok result → result.duplicateSuppressed = false →
    q = .created result.job.id result.job.state ∧ result.job.leaseToken = ""

theorem createJob {m : Manager} {req : JobRequest} (ht : job.leaseToken = "")
    (hb : Blocks job (sanitizeDependencies req.dependencies job.id)) :
    (m.createJob req job).Follows Preceding Created .idle := by
  unfold Manager.createJob
  dsimp only
  split
  case isTrue  =>
    refine ⟨⟨rfl, hb⟩, fun res ⟨faults, w, hw⟩ result he hd => ?_⟩
    subst he
    have ⟨_, hr⟩ := World.tryExec_repo hw
    have ⟨hj, _⟩ := Postgres.createJobWithIdempotency_states hr hd
    exact ⟨if_neg (by simp [hd]), hj.symm ▸ ht⟩
  case isFalse =>
    refine ⟨⟨rfl, hb⟩, fun res _ => ?_⟩
    cases res
    case error => exact fun _ he => nomatch he
    case ok    =>
      intro result he _
      cases he
      exact ⟨rfl, ht⟩

theorem enqueueJob {m : Manager} {req : JobRequest} {id : JobID} :
    (m.enqueueJob req id).Follows Preceding (fun _ _ => True) .idle := by
  unfold Manager.enqueueJob
  split
  case h_1 => trivial
  case h_2 =>
    refine ⟨trivial, fun now _ => Prog.Follows.bind (p := m.createJob req (buildJob now req id)) ?_⟩
    refine (createJob rfl buildJob_blocks).mono fun res q hq => ?_
    cases res
    case error     => trivial
    case ok result =>
      dsimp only
      split
      case isTrue     => trivial
      case isFalse hd =>
        obtain ⟨rfl, ht⟩ := hq result rfl (by simpa using hd)
        refine ⟨trivial, fun _ _ => ⟨⟨rfl, rfl, ht⟩, fun res _ => ?_⟩⟩
        cases res
        case error => trivial
        case ok    => trivial

-- A worker ends only leases which have been granted.
theorem dequeue_token {workerID : WorkerID} {queues : List QueueName} {leaseTTL : Duration} {lease : JobID × Token}
    (h : Preceding.Expected (.broker (.dequeue workerID queues leaseTTL now)) (.ok (some lease))) : lease.2 ≠ "" := by
  have ⟨faults, w, hw⟩ := h
  exact RedisBroker.dequeueLua_token (Except.ok.inj (World.tryExec_broker hw))

end Preceding

theorem Operation.precedes (op : Operation) : op.program.Follows Preceding (fun _ _ => True) .idle := by
  have only {p : Program (Except Error Unit)} {ok : Call → Prop} (hp : p.Only ok)
      (hs : ∀ c, ok c → Preceding.Allows .idle c ∧ ∀ r, Preceding.next .idle c r = .idle) :
      p.Follows Preceding (fun _ _ => True) .idle :=
    (hp.follows hs).mono fun _ _ _ => trivial
  cases op
  case enqueueJob        => exact .bind <| Preceding.enqueueJob.mono fun _ _ _ => trivial
  case work              =>
    exact .bind <| (Runtime.work_follows Preceding.works (fun _ _ => Preceding.resolveDependents) fun _ _ _ =>
      Preceding.dequeue_token).mono fun _ _ _ => trivial
  case activateDue       => exact only Scheduler.activateDue_sweeps Preceding.sweeps
  case recoverExpired    => exact only Scheduler.recoverExpired_sweeps Preceding.sweeps
  case retryJob          => exact only (Manager.retryJob_operates.bind fun _ => trivial) Preceding.operates
  case replayDeadLetters => exact only (Manager.replayDeadLetters_operates.bind fun _ => trivial) Preceding.operates
  case cancelJob         => exact only (Manager.cancelJob_operates.bind fun _ => trivial) Preceding.operates

end JobPlatform
