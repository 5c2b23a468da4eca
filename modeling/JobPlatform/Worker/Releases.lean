import JobPlatform.Queue.Effects
import JobPlatform.Service.Manager
import JobPlatform.Store.States
import JobPlatform.Worker.Runtime

namespace JobPlatform

namespace Releasing

-- A process which has stored a new job passes it to the broker. One which has listed the blocked dependents of a
-- job handles them one after the other. A dependent that has been passed to the broker still has to be marked.
inductive State
  | idle
  | created (jobID : JobID) (state : JobState)
  | listed (dependents : List JobID)
  | handling (dependent : JobID) (rest : List JobID)
  | released (dependent : JobID) (rest : List JobID)
  deriving DecidableEq

-- The given dependents are still to be handled.
def State.Pending (dependents : List JobID) : State → Prop
  | listed rest     => rest = dependents
  | handling _ rest => rest = dependents
  | _               => False

-- The job of which the process is about to change the row, as it has been passed to the broker.
def State.owes : State → Option JobID
  | released dependent _ => some dependent
  | _                    => none

-- A call which does not block a job.
def Plain (c : RepoCall) : Prop :=
  ∀ job ∈ Postgres.marks c, job.state ≠ .blocked

end Releasing

abbrev Releasing : Protocol Call Call.Resp where
  State := Releasing.State
  Allows
    | .created j s,   .broker (.enqueue job _)               => job.id = j ∧ job.state = s ∧ job.leaseToken = ""
    | .handling d _,  .broker (.enqueue job _)               => job.id = d ∧ job.state ≠ .blocked
    | _,              .broker (.enqueue ..)                  => False
    | _,              .broker (.complete _ leaseToken ..)    => leaseToken ≠ ""
    | _,              .broker (.fail _ leaseToken ..)        => leaseToken ≠ ""
    | _,              .broker (.requeueThrottled _ leaseToken ..) => leaseToken ≠ ""
    | _,              .broker (.retry ..)                    => False
    | _,              .broker (.cancelLoaded ..)             => False
    | q,              .repo (.createJobBundle ..)            => q = .idle
    | q,              .repo (.createJobWithIdempotency ..)   => q = .idle
    | q,              .repo (.listDependentJobs _)           => q = .idle
    | q,              .repo (.listDependencies j)            => ∃ rest, q.Pending (j :: rest)
    | .handling d _,  .repo (.markJobQueued job)             => job.id = d ∧ job.state = .blocked
    | .released d _,  .repo (.markJobQueued job)             => job.id = d ∧ job.state ≠ .blocked
    | _,              .repo (.markJobQueued _)               => False
    | _,              .repo c                                => Releasing.Plain c
    | _,              _                                      => True
  Expected c r := ∃ w : World, (w.exec c).2 = r
  next
    | .idle,               .repo (.createJobBundle job _),        .ok ()     => .created job.id job.state
    | .idle,               .repo (.createJobWithIdempotency ..),  .ok result =>
      if result.duplicateSuppressed then .idle else .created result.job.id result.job.state
    | .idle,               .repo (.listDependentJobs _),          .ok jobs   =>
      .listed ((jobs.filter (·.state = .blocked)).map (·.id))
    | .listed rest,        .repo (.listDependencies j),           _          => .handling j rest.tail
    | .handling _ rest,    .repo (.listDependencies j),           _          => .handling j rest.tail
    | .created ..,         .broker (.enqueue ..),                 _          => .idle
    | .handling d rest,    .broker (.enqueue ..),                 _          => .released d rest
    | .handling _ rest,    .repo (.markJobQueued _),              _          => .listed rest
    | .released _ rest,    .repo (.markJobQueued _),              _          => .listed rest
    | q,                   _,                                     _          => q

namespace Releasing

-- The calls which may be made at any time, and which do not change the state.
def Steady : Call → Prop
  | .broker (.enqueue ..)                       => False
  | .broker (.complete _ leaseToken ..)         => leaseToken ≠ ""
  | .broker (.fail _ leaseToken ..)             => leaseToken ≠ ""
  | .broker (.requeueThrottled _ leaseToken ..) => leaseToken ≠ ""
  | .broker (.retry ..)                         => False
  | .broker (.cancelLoaded ..)                  => False
  | .repo (.createJobBundle ..)                 => False
  | .repo (.createJobWithIdempotency ..)        => False
  | .repo (.listDependentJobs _)                => False
  | .repo (.listDependencies _)                 => False
  | .repo (.markJobQueued _)                    => False
  | .repo c                                     => Plain c
  | _                                           => True

variable {q : State} {α : Type} {p : Program α} {job : Job} {leaseToken : Token} {now : Time} {rest : List JobID}

theorem Steady.allowed (c : Call) (hc : Steady c) : Releasing.Allows q c ∧ ∀ r, Releasing.next q c r = q := by
  cases c
  case broker c =>
    cases c
    case enqueue      => exact hc.elim
    case retry        => exact hc.elim
    case cancelLoaded => exact hc.elim
    all_goals exact ⟨by cases q <;> exact hc, fun _ => by cases q <;> rfl⟩
  case repo c   =>
    cases c
    case createJobBundle          => exact hc.elim
    case createJobWithIdempotency => exact hc.elim
    case listDependentJobs        => exact hc.elim
    case listDependencies         => exact hc.elim
    case markJobQueued            => exact hc.elim
    all_goals exact ⟨by cases q <;> exact hc, fun _ => by cases q <;> rfl⟩
  all_goals exact ⟨by cases q <;> exact hc, fun _ => by cases q <;> rfl⟩

theorem follows_of_steady (h : p.Only Steady) : p.Follows Releasing (fun _ q' => q' = q) q :=
  h.follows Steady.allowed

theorem plain_of_none {c : RepoCall} (hm : Postgres.marks c = none) : Plain c := by
  simp [Plain, hm]

theorem plain_of_marks {c : RepoCall} (hm : Postgres.marks c = some job) (hs : job.state ≠ .blocked) : Plain c := by
  simpa [Plain, hm] using hs

theorem updateIdempotencyOutcome {status : String} : (updateIdempotencyOutcome job status).Only Steady := by
  unfold JobPlatform.updateIdempotencyOutcome
  split
  case isTrue  => trivial
  case isFalse => exact ⟨trivial, fun _ => ⟨plain_of_none rfl, fun _ => trivial⟩⟩

theorem dependencyReadiness {dependencies : List JobDependency} :
    (Worker.dependencyReadiness job dependencies).Only Steady := by
  have hr (policy count) (allSatisfied) :
      (Worker.readinessOf policy count dependencies allSatisfied).Only Steady := by
    induction dependencies generalizing allSatisfied
    case nil        => trivial
    case cons d _ hi =>
      refine ⟨plain_of_none rfl, fun r => ?_⟩
      cases r
      case error  => trivial
      case ok job =>
        cases policy
        case allowFailed => exact hi _
        case block       =>
          simp only [Prog.ret_bind]
          split
          case isTrue  => trivial
          case isFalse => exact hi _
  unfold Worker.dependencyReadiness
  split
  case isTrue  => trivial
  case isFalse => exact hr ..

theorem releasedJob_not_blocked : (Worker.releasedJob job now).state ≠ .blocked := by
  unfold Worker.releasedJob
  dsimp only
  split <;> exact nofun

theorem next_listDependencies {j : JobID} {res} (h : q.Pending (j :: rest)) :
    Releasing.next q (.repo (.listDependencies j)) res = .handling j rest := by
  cases q
  case listed ds      => cases h; rfl
  case handling d ds  => cases h; rfl
  all_goals exact h.elim

theorem resolveDependent (hq : q.Pending (job.id :: rest)) :
    (Worker.resolveDependent job now).Follows Releasing (fun _ q' => q'.Pending rest) q := by
  refine ⟨by cases q <;> exact ⟨rest, hq⟩, fun res hres => ?_⟩
  rw [next_listDependencies hq]
  obtain ⟨w, rfl⟩ := hres
  refine .bind (p := Worker.dependencyReadiness job (w.postgres.listDependencies job.id)) ?_
  refine (follows_of_steady dependencyReadiness).mono fun (ready, blockedReason) q hq => ?_
  subst hq
  cases ready
  case true  =>
    refine ⟨trivial, fun t _ => ⟨⟨rfl, releasedJob_not_blocked⟩, fun res hres => ?_⟩⟩
    obtain ⟨w', rfl⟩ := hres
    exact ⟨⟨rfl, releasedJob_not_blocked⟩, fun _ _ => rfl⟩
  case false =>
    dsimp only
    simp only [Bool.false_eq_true, if_false]
    split
    all_goals
      split
      case isTrue  => exact rfl
      case isFalse => exact ⟨⟨rfl, rfl⟩, fun _ _ => rfl⟩

theorem resolveAll {dependents : List Job}
    (hq : q.Pending ((dependents.filter (·.state = .blocked)).map (·.id))) :
    (Worker.resolveAll now dependents).Follows Releasing (fun _ _ => True) q := by
  induction dependents generalizing q
  case nil                    => trivial
  case cons dependent rest hi =>
    unfold Worker.resolveAll
    split
    case isTrue hb  =>
      rw [List.filter_cons_of_pos (by simpa using hb)] at hq
      exact .bind ((resolveDependent hq).mono fun _ q hq => hi hq)
    case isFalse hb =>
      rw [List.filter_cons_of_neg (by simpa using hb)] at hq
      exact hi hq

theorem resolveDependents : (Worker.resolveDependents job now).Follows Releasing (fun _ _ => True) .idle := by
  refine ⟨rfl, fun res hr => ?_⟩
  obtain ⟨w, rfl⟩ := hr
  exact resolveAll rfl

-- The end of a program does not matter.
theorem steady (h : p.Only Steady) : p.Follows Releasing (fun _ _ => True) q :=
  (follows_of_steady h).mono fun _ _ _ => trivial

section

variable {r : Runtime} {err : HandlerError} {started finished : Time} {leased : LeasedJob}
         {policies : List RateLimitPolicy} {handling : Option Handling} {outcome : Except HandlerError String}

theorem forConcurrency {call : RateLimitPolicy → LimiterCall} : (Limiter.forConcurrency call policies).Only Steady :=
  Limiter.forConcurrency_only call fun _ _ => trivial

theorem heartbeatLoop {rounds : Nat} : (r.heartbeatLoop job leaseToken policies rounds).Only Steady := by
  induction rounds
  case zero           => trivial
  case succ rounds hi =>
    refine ⟨trivial, fun now => ⟨trivial, fun ok => ?_⟩⟩
    obtain _ | _ | _ := ok
    · trivial
    · trivial
    · refine ⟨trivial, fun heartbeatAt => ⟨plain_of_none rfl, fun _ => ?_⟩⟩
      dsimp only
      split
      case isFalse => exact hi
      case isTrue  => exact ⟨trivial, fun _ => forConcurrency.bind fun _ => hi⟩

theorem throttle {retryAt : Time} {reason : String} (ht : leaseToken ≠ "") :
    (Runtime.throttle job leaseToken retryAt reason).Only Steady := by
  refine ⟨trivial, fun _ => ⟨trivial, fun _ => ⟨ht, fun ok => ?_⟩⟩⟩
  obtain _ | _ | _ := ok
  · trivial
  · trivial
  · exact ⟨plain_of_marks rfl nofun, fun _ => trivial⟩

theorem handleFailure (ht : leaseToken ≠ "") :
    (r.handleFailure job leaseToken err started finished).Follows Releasing (fun _ _ => True) .idle := by
  have hs : (Runtime.failedJob job err started finished).state ≠ .blocked := by
    unfold Runtime.failedJob
    dsimp only
    split <;> exact nofun
  refine ⟨ht, fun ok _ => ?_⟩
  obtain _ | _ | _ := ok
  · trivial
  · trivial
  · dsimp only
    split
    case h_1 => exact ⟨plain_of_marks rfl hs, fun _ _ => ⟨plain_of_none rfl, fun _ _ => trivial⟩⟩
    case h_2 =>
      let failed := Runtime.failedJob job err started finished
      refine ⟨plain_of_marks rfl hs, fun _ _ =>
        Prog.Follows.bind (p := JobPlatform.updateIdempotencyOutcome failed "failed") ?_⟩
      refine (follows_of_steady updateIdempotencyOutcome).mono fun _ q hq => ?_
      subst hq
      exact ⟨plain_of_none rfl, fun _ _ => ⟨plain_of_none rfl, fun _ _ => resolveDependents⟩⟩

theorem finish (ht : leaseToken ≠ "") :
    (r.finish job leaseToken outcome started).Follows Releasing (fun _ _ => True) .idle := by
  refine ⟨trivial, fun finished _ => ?_⟩
  cases outcome
  case error err => exact handleFailure ht
  case ok result =>
    refine ⟨ht, fun ok _ => ?_⟩
    obtain _ | _ | _ := ok
    · trivial
    · trivial
    · let completed := Runtime.completedJob job result started finished
      refine ⟨plain_of_marks rfl nofun, fun _ _ =>
        Prog.Follows.bind (p := JobPlatform.updateIdempotencyOutcome completed "completed") ?_⟩
      refine (follows_of_steady updateIdempotencyOutcome).mono fun _ q hq => ?_
      subst hq
      exact ⟨plain_of_none rfl, fun _ _ => resolveDependents⟩

theorem execute (hs : job.state = .active) (ht : leaseToken ≠ "") :
    (r.execute job leaseToken policies handling started).Follows Releasing (fun _ _ => True) .idle := by
  refine ⟨plain_of_marks rfl (by simp [hs]), fun _ _ => ⟨plain_of_none rfl, fun _ _ => ?_⟩⟩
  cases handling
  case none   => exact handleFailure ht
  case some h => exact ⟨trivial, fun _ _ => finish ht⟩

theorem evaluateAndAcquire {leaseTTL : Duration} :
    (Limiter.evaluateAndAcquire job policies leaseTTL).Only Steady :=
  Limiter.evaluateAndAcquire_only trivial fun _ => trivial

theorem process (ht : leased.leaseToken ≠ "") :
    (r.process leased policies handling).Follows Releasing (fun _ _ => True) .idle := by
  refine ⟨trivial, fun started _ => ?_⟩
  have hs : (r.leasedJob leased started).state = .active := rfl
  dsimp only
  split
  case isFalse => exact execute hs ht
  case isTrue  =>
    let job := r.leasedJob leased started
    refine Prog.Follows.bind (p := Limiter.evaluateAndAcquire job policies r.leaseTTL) ?_
    refine (follows_of_steady evaluateAndAcquire).mono fun res q hq => ?_
    subst hq
    cases res
    case error e     => exact steady (throttle ht)
    case ok decision =>
      dsimp only
      split
      case isTrue  => exact .bind <| (execute hs ht).mono fun _ q _ => steady forConcurrency
      case isFalse => exact steady (throttle ht)

end

theorem dequeue_token {w : World} {workerID : WorkerID} {queues : List QueueName} {leaseTTL : Duration}
    {x : JobID × Token} (h : (w.exec (.broker (.dequeue workerID queues leaseTTL now))).2 = .ok (some x)) :
    x.2 ≠ "" :=
  RedisBroker.dequeueLua_token (Except.ok.inj h)

theorem work {r : Runtime} {policies : List RateLimitPolicy} {handler : Job → Option Handling} :
    (r.work policies handler).Follows Releasing (fun _ _ => True) .idle := by
  refine ⟨trivial, fun now _ => ⟨trivial, fun res hres => ?_⟩⟩
  match res with
  | .error _                       => trivial
  | .ok none                       => trivial
  | .ok (some (jobID, leaseToken)) =>
    obtain ⟨w, hw⟩ := hres
    refine ⟨trivial, fun res _ => ?_⟩
    cases res
    case error => trivial
    case ok    => exact process (dequeue_token hw)

theorem buildJob_unleased {req : JobRequest} {id : JobID} : (buildJob now req id).leaseToken = "" :=
  rfl

-- A new job is passed to the broker with the state that it has been stored with.
def Created (res : Except Error EnqueueResult) (q : State) : Prop :=
  ∀ result, res = .ok result → result.duplicateSuppressed = false →
    q = .created result.job.id result.job.state ∧ result.job.leaseToken = ""

theorem createJob {m : Manager} {req : JobRequest} (ht : job.leaseToken = "") :
    (m.createJob req job).Follows Releasing Created .idle := by
  unfold Manager.createJob
  dsimp only
  split
  case isTrue  =>
    refine ⟨rfl, fun res hres => ?_⟩
    obtain ⟨w, hw⟩ := hres
    intro result he hd
    subst he
    have ⟨hj, _⟩ := Postgres.createJobWithIdempotency_states hw hd
    exact ⟨if_neg (by simp [hd]), hj.symm ▸ ht⟩
  case isFalse =>
    refine ⟨rfl, fun res _ => ?_⟩
    cases res
    case error => exact fun _ he => nomatch he
    case ok    =>
      intro result he _
      cases he
      exact ⟨rfl, ht⟩

theorem enqueueJob {m : Manager} {req : JobRequest} {id : JobID} :
    (m.enqueueJob req id).Follows Releasing (fun _ _ => True) .idle := by
  unfold Manager.enqueueJob
  split
  case h_1 => trivial
  case h_2 =>
    refine ⟨trivial, fun now _ => Prog.Follows.bind (p := m.createJob req (buildJob now req id)) ?_⟩
    refine (createJob buildJob_unleased).mono fun res q hq => ?_
    cases res
    case error     => trivial
    case ok result =>
      dsimp only
      split
      case isTrue     => trivial
      case isFalse hd =>
        obtain ⟨rfl, ht⟩ := hq result rfl (by simpa using hd)
        refine ⟨trivial, fun _ _ => ⟨⟨rfl, rfl, ht⟩, fun res _ => ?_⟩⟩
        cases res
        case error => trivial
        case ok    => trivial

end Releasing
end JobPlatform
