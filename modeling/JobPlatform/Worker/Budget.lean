import JobPlatform.Queue.Budget
import JobPlatform.Worker.Runtime

namespace JobPlatform

namespace Budgeting

-- A process may have loaded a job to cancel it. A worker has leased a job, or else it has loaded it too, and works
-- on it with the budget that it has read, until it has ended its lease.
inductive State
  | idle
  | loaded (jobID : JobID)
  | leased (jobID : JobID) (leaseToken : Token)
  | working (jobID : JobID) (leaseToken : Token) (attempts maxAttempts : Int)
  | done
  deriving DecidableEq

-- The process is no worker.
def State.Free : State → Prop
  | idle       => True
  | loaded _   => True
  | _          => False

-- The process is a worker which has loaded its job.
def State.Busy : State → Prop
  | working .. => True
  | done       => True
  | _          => False

end Budgeting

-- A worker ends only its own lease, and decides about another attempt by the budget that it has read.
abbrev Budgeting : Protocol Call Call.Resp where
  State := Budgeting.State
  Allows
    | .leased j _,       c                                             => c = .broker (.loadJob j)
    | .idle,             .broker (.enqueue job _)                      => job.Fresh
    | .loaded _,         .broker (.enqueue ..)                         => False
    | q,                 .broker (.dequeue ..)                         => q = .idle
    | _,                 .broker (.retry job _)                        => job.attempts = 0
    | q,                 .broker (.cancelLoaded j ..)                  => q = .loaded j
    | .working j t a m,  .broker (.fail job leaseToken _ retryAt _)    =>
      job.id = j ∧ leaseToken = t ∧ (retryAt.isSome ↔ a < m)
    | .working _ t ..,   .broker (.complete _ leaseToken ..)           => leaseToken = t
    | .working _ t ..,   .broker (.requeueThrottled _ leaseToken ..)   => leaseToken = t
    | _,                 .broker (.fail ..)                            => False
    | _,                 .broker (.complete ..)                        => False
    | _,                 .broker (.requeueThrottled ..)                => False
    | _,                 _                                             => True
  Expected c r := ∃ faults w, (World.tryExec faults w c).2 = r
  next
    | .leased _ t, .broker (.loadJob _), .ok job              => .working job.id t job.attempts job.maxAttempts
    | .leased ..,  _,                    _                    => .idle
    | .idle,       .broker (.dequeue ..), .ok (some (j, t))   => .leased j t
    | .working .., .broker (.fail ..),   _                    => .done
    | .working .., .broker (.complete ..), _                  => .done
    | .working .., .broker (.requeueThrottled ..), _          => .done
    | .idle,       .broker (.loadJob j), .ok _                => .loaded j
    | .loaded _,   .broker (.loadJob j), .ok _                => .loaded j
    | q,           _,                    _                    => q

namespace Budgeting

-- The calls which are made by workers as well as by others, where only workers release dependents.
def Steady (worker : Prop) : Call → Prop
  | .broker (.enqueue ..)          => worker
  | .broker (.dequeue ..)          => False
  | .broker (.retry ..)            => False
  | .broker (.cancelLoaded ..)     => False
  | .broker (.fail ..)             => False
  | .broker (.complete ..)         => False
  | .broker (.requeueThrottled ..) => False
  | _                              => True

variable {q : State} {α : Type} {p : Program α} {job : Job} {leaseToken : Token} {now : Time} {worker : Prop}
         {jobID : JobID} {attempts maxAttempts : Int}

theorem Steady.busy (hq : q.Busy) (c : Call) (hc : Steady True c) :
    Budgeting.Allows q c ∧ ∀ r, Budgeting.next q c r = q := by
  cases q
  case idle   => exact hq.elim
  case loaded => exact hq.elim
  case leased => exact hq.elim
  all_goals
    cases c
    case broker c =>
      cases c
      case dequeue          => exact hc.elim
      case retry            => exact hc.elim
      case cancelLoaded     => exact hc.elim
      case fail             => exact hc.elim
      case complete         => exact hc.elim
      case requeueThrottled => exact hc.elim
      all_goals exact ⟨trivial, fun _ => rfl⟩
    all_goals exact ⟨trivial, fun _ => rfl⟩

theorem Steady.free (q : State) (c : Call) (hq : q.Free) (hc : Steady False c) :
    Budgeting.Allows q c ∧ ∀ r, (Budgeting.next q c r).Free := by
  cases q
  case leased  => exact hq.elim
  case working => exact hq.elim
  case done    => exact hq.elim
  all_goals
    cases c
    case broker c =>
      cases c
      case enqueue          => exact hc.elim
      case dequeue          => exact hc.elim
      case retry            => exact hc.elim
      case cancelLoaded     => exact hc.elim
      case fail             => exact hc.elim
      case complete         => exact hc.elim
      case requeueThrottled => exact hc.elim
      case loadJob          => exact ⟨trivial, fun r => by cases r <;> trivial⟩
      all_goals exact ⟨trivial, fun _ => trivial⟩
    all_goals exact ⟨trivial, fun _ => trivial⟩

theorem follows_of_busy (h : p.Only (Steady True)) (hq : q.Busy) : p.Follows Budgeting (fun _ q' => q' = q) q :=
  h.follows (Steady.busy hq)

theorem follows_of_free (h : p.Only (Steady False)) (hq : q.Free) : p.Follows Budgeting (fun _ _ => True) q :=
  (h.follows_invariant Steady.free hq).mono fun _ _ _ => trivial

theorem forConcurrency {call : RateLimitPolicy → LimiterCall} {policies : List RateLimitPolicy} :
    (Limiter.forConcurrency call policies).Only (Steady worker) :=
  Limiter.forConcurrency_only call fun _ _ => trivial

theorem evaluateAndAcquire {policies : List RateLimitPolicy} {leaseTTL : Duration} :
    (Limiter.evaluateAndAcquire job policies leaseTTL).Only (Steady worker) :=
  Limiter.evaluateAndAcquire_only trivial fun _ => trivial

theorem heartbeatLoop {r : Runtime} {policies : List RateLimitPolicy} {rounds : Nat} :
    (r.heartbeatLoop job leaseToken policies rounds).Only (Steady worker) := by
  induction rounds
  case zero           => trivial
  case succ rounds hi =>
    refine ⟨trivial, fun now => ⟨trivial, fun ok => ?_⟩⟩
    obtain _ | _ | _ := ok
    · trivial
    · trivial
    · refine ⟨trivial, fun heartbeatAt => ⟨trivial, fun _ => ?_⟩⟩
      dsimp only
      split
      case isFalse => exact hi
      case isTrue  => exact ⟨trivial, fun _ => forConcurrency.bind fun _ => hi⟩

theorem updateIdempotencyOutcome {status : String} :
    (updateIdempotencyOutcome job status).Only (Steady worker) := by
  unfold JobPlatform.updateIdempotencyOutcome
  split
  case isTrue  => trivial
  case isFalse => exact ⟨trivial, fun _ => ⟨trivial, fun _ => trivial⟩⟩

theorem dependencyReadiness {dependencies : List JobDependency} :
    (Worker.dependencyReadiness job dependencies).Only (Steady worker) := by
  have hr (policy count) (allSatisfied) :
      (Worker.readinessOf policy count dependencies allSatisfied).Only (Steady worker) := by
    induction dependencies generalizing allSatisfied
    case nil        => trivial
    case cons d _ hi =>
      refine ⟨trivial, fun r => ?_⟩
      cases r
      case error  => trivial
      case ok job =>
        cases policy
        case allowFailed => exact hi _
        case block       =>
          simp only [Prog.ret_bind]
          split
          case isTrue  => trivial
          case isFalse => exact hi _
  unfold Worker.dependencyReadiness
  split
  case isTrue  => trivial
  case isFalse => exact hr ..

theorem resolveDependent : (Worker.resolveDependent job now).Only (Steady True) := by
  refine ⟨trivial, fun r => ?_⟩
  cases r
  case error           => trivial
  case ok dependencies =>
    refine dependencyReadiness.bind fun (ready, blockedReason) => ?_
    cases ready
    case true  =>
      refine ⟨trivial, fun _ => ⟨trivial, fun r => ?_⟩⟩
      cases r
      case error => trivial
      case ok    => exact ⟨trivial, fun _ => trivial⟩
    case false =>
      dsimp only
      simp only [Bool.false_eq_true, if_false]
      split
      all_goals
        split
        case isTrue  => trivial
        case isFalse => exact ⟨trivial, fun _ => trivial⟩

theorem resolveDependents : (Worker.resolveDependents job now).Only (Steady True) := by
  have hr (dependents : List Job) : (Worker.resolveAll now dependents).Only (Steady True) := by
    induction dependents
    case nil                 => trivial
    case cons dependent _ hi =>
      unfold Worker.resolveAll
      split
      case isTrue  => exact resolveDependent.bind fun _ => hi
      case isFalse => exact hi
  refine ⟨trivial, fun r => ?_⟩
  cases r
  case error => trivial
  case ok    => exact hr _

section

variable {r : Runtime} {err : HandlerError} {started finished : Time} {leased : LeasedJob}
         {policies : List RateLimitPolicy} {handling : Option Handling} {outcome : Except HandlerError String}

-- The state of the worker that works on the job with the token.
abbrev on (job : Job) (leaseToken : Token) : State :=
  .working job.id leaseToken job.attempts job.maxAttempts

theorem ends {p : Program Unit} (h : p.Only (Steady True)) : p.Follows Budgeting (fun _ q => q = .done) .done :=
  follows_of_busy h trivial

theorem throttle {retryAt : Time} {reason : String} : (Runtime.throttle job leaseToken retryAt reason).Follows
    Budgeting (fun _ q => q = .done) (on job leaseToken) := by
  refine ⟨trivial, fun _ _ => ⟨trivial, fun _ _ => ⟨rfl, fun ok _ => ?_⟩⟩⟩
  obtain _ | _ | _ := ok
  · rfl
  · rfl
  · exact ⟨trivial, fun _ _ => rfl⟩

theorem failureRetryAt_isSome : (r.failureRetryAt job finished).isSome ↔ job.attempts < job.maxAttempts := by
  unfold Runtime.failureRetryAt
  split
  case isTrue h  => simp [h]
  case isFalse h => simp [h]

theorem handleFailure : (r.handleFailure job leaseToken err started finished).Follows Budgeting
    (fun _ q => q = .done) (on job leaseToken) := by
  refine ⟨⟨rfl, rfl, failureRetryAt_isSome⟩, fun ok _ => ?_⟩
  obtain _ | _ | _ := ok
  · rfl
  · rfl
  · dsimp only
    split
    case h_1 => exact ⟨trivial, fun _ _ => ⟨trivial, fun _ _ => rfl⟩⟩
    case h_2 =>
      let failed := Runtime.failedJob job err started finished
      refine ⟨trivial, fun _ _ => Prog.Follows.bind (p := JobPlatform.updateIdempotencyOutcome failed "failed") ?_⟩
      refine (ends updateIdempotencyOutcome).mono fun _ q hq => ?_
      subst hq
      exact ⟨trivial, fun _ _ => ⟨trivial, fun _ _ => ends resolveDependents⟩⟩

theorem finish : (r.finish job leaseToken outcome started).Follows Budgeting (fun _ q => q = .done)
    (on job leaseToken) := by
  refine ⟨trivial, fun finished _ => ?_⟩
  cases outcome
  case error err => exact handleFailure
  case ok result =>
    refine ⟨rfl, fun ok _ => ?_⟩
    obtain _ | _ | _ := ok
    · rfl
    · rfl
    · let completed := Runtime.completedJob job result started finished
      refine ⟨trivial, fun _ _ =>
        Prog.Follows.bind (p := JobPlatform.updateIdempotencyOutcome completed "completed") ?_⟩
      refine (ends updateIdempotencyOutcome).mono fun _ q hq => ?_
      subst hq
      exact ⟨trivial, fun _ _ => ends resolveDependents⟩

theorem execute : (r.execute job leaseToken policies handling started).Follows Budgeting (fun _ q => q = .done)
    (on job leaseToken) := by
  refine ⟨trivial, fun _ _ => ⟨trivial, fun _ _ => ?_⟩⟩
  cases handling
  case none   => exact handleFailure
  case some h => exact ⟨trivial, fun _ _ => finish⟩

theorem process : (r.process leased policies handling).Follows Budgeting (fun _ q => q = .done)
    (on leased.job leased.leaseToken) := by
  refine ⟨trivial, fun started _ => ?_⟩
  dsimp only
  split
  case isFalse => exact execute
  case isTrue  =>
    let job := r.leasedJob leased started
    have hb : (on job leased.leaseToken).Busy := trivial
    have ht (retryAt : Time) (reason : String) : (Runtime.throttle job leased.leaseToken retryAt reason).Follows Budgeting
        (fun _ q => q = .done) (on job leased.leaseToken) := throttle
    have he : (r.execute job leased.leaseToken policies handling started).Follows Budgeting
        (fun _ q => q = .done) (on job leased.leaseToken) := execute
    refine Prog.Follows.bind (p := Limiter.evaluateAndAcquire job policies r.leaseTTL) ?_
    refine (follows_of_busy evaluateAndAcquire hb).mono fun res q hq => ?_
    subst hq
    cases res
    case error e     => exact ht ..
    case ok decision =>
      dsimp only
      split
      case isFalse => exact ht ..
      case isTrue  =>
        refine .bind <| he.mono fun _ q hq => ?_
        subst hq
        exact ends forConcurrency

theorem work {handler : Job → Option Handling} :
    (r.work policies handler).Follows Budgeting (fun _ _ => True) .idle := by
  have hp (leased : LeasedJob) : (r.process leased policies (handler leased.job)).Follows Budgeting (fun _ _ => True)
      (on leased.job leased.leaseToken) := process.mono fun _ _ _ => trivial
  refine ⟨trivial, fun now _ => ⟨rfl, fun res _ => ?_⟩⟩
  match res with
  | .error _                       => trivial
  | .ok none                       => trivial
  | .ok (some (jobID, leaseToken)) =>
    refine ⟨rfl, fun res _ => ?_⟩
    match res with
    | .error _ => trivial
    | .ok job  => exact hp { job := { job with leaseToken }, leaseToken }

end

end Budgeting
end JobPlatform
