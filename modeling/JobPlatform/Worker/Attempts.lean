import JobPlatform.Worker.Runtime

namespace JobPlatform

namespace Recording

-- A process has leased a job, or else it has loaded it too and works on the given attempt.
inductive State
  | idle
  | leased (jobID : JobID)
  | attempt (jobID : JobID) (number : Int)
  deriving DecidableEq

end Recording

-- A process loads the job that it has leased, and then records the attempt with the number that it has
-- read. Only expired attempts are recorded by other processes. A job that is throttled is not attempted.
abbrev Recording : Protocol Call Call.Resp where
  State := Recording.State
  Allows
    | .leased jobID, c                                         => c = .broker (.loadJob jobID)
    | q,             .broker (.dequeue ..)                     => q = .idle
    | q,             .repo (.upsertJobAttempt attempt)         =>
      attempt.leaseExpired = true ∨ q = .attempt attempt.jobID attempt.attempt
    | _,             .repo (.createJobBundle job _)            => job.id ≠ ""
    | _,             .repo (.createJobWithIdempotency job _ _) => job.id ≠ ""
    | _,             _                                         => True
  Expected _ _ := True
  next
    | .leased _,   .broker (.loadJob _),           .ok job             => .attempt job.id job.attempts
    | .leased _,   _,                              _                   => .idle
    | .idle,       .broker (.dequeue ..),          .ok (some (jobID, _)) => .leased jobID
    | .attempt .., .broker (.requeueThrottled ..), _                   => .idle
    | q,           _,                              _                   => q

namespace Recording

-- The calls which may be made at any time, except before a leased job is loaded.
def Steady : Call → Prop
  | .broker (.dequeue ..)                     => False
  | .broker (.requeueThrottled ..)            => False
  | .repo (.upsertJobAttempt attempt)         => attempt.leaseExpired = true
  | .repo (.createJobBundle job _)            => job.id ≠ ""
  | .repo (.createJobWithIdempotency job _ _) => job.id ≠ ""
  | _                                         => True

variable {q : State} {α : Type} {p : Program α} {job : Job} {leaseToken : Token} {now : Time}

theorem Steady.allowed (hq : ∀ jobID, q ≠ .leased jobID) (c : Call) (hc : Steady c) :
    Recording.Allows q c ∧ ∀ r, Recording.next q c r = q := by
  cases q
  case leased jobID => exact absurd rfl (hq jobID)
  all_goals
    cases c
    case broker c =>
      cases c
      case dequeue          => exact hc.elim
      case requeueThrottled => exact hc.elim
      all_goals exact ⟨trivial, fun _ => rfl⟩
    case repo c   =>
      cases c
      case upsertJobAttempt         => exact ⟨.inl hc, fun _ => rfl⟩
      case createJobBundle          => exact ⟨hc, fun _ => rfl⟩
      case createJobWithIdempotency => exact ⟨hc, fun _ => rfl⟩
      all_goals exact ⟨trivial, fun _ => rfl⟩
    all_goals exact ⟨trivial, fun _ => rfl⟩

-- A steady program leaves the state as it is.
theorem follows_of_steady (h : p.Only Steady) (hq : ∀ jobID, q ≠ .leased jobID) :
    p.Follows Recording (fun _ q' => q' = q) q :=
  h.follows (Steady.allowed hq)

theorem forConcurrency {call : RateLimitPolicy → LimiterCall} {policies : List RateLimitPolicy} :
    (Limiter.forConcurrency call policies).Only Steady :=
  Limiter.forConcurrency_only call fun _ _ => trivial

theorem heartbeatLoop {r : Runtime} {policies : List RateLimitPolicy} {rounds : Nat} :
    (r.heartbeatLoop job leaseToken policies rounds).Only Steady := by
  induction rounds
  case zero           => trivial
  case succ rounds hi =>
    refine ⟨trivial, fun now => ⟨trivial, fun ok => ?_⟩⟩
    match ok with
    | .error _   => trivial
    | .ok false  => trivial
    | .ok true   =>
      refine ⟨trivial, fun heartbeatAt => ⟨trivial, fun _ => ?_⟩⟩
      dsimp only
      split
      case isFalse => exact hi
      case isTrue  => exact ⟨trivial, fun _ => forConcurrency.bind fun _ => hi⟩

theorem evaluateAndAcquire {policies : List RateLimitPolicy} {leaseTTL : Duration} :
    (Limiter.evaluateAndAcquire job policies leaseTTL).Only Steady :=
  Limiter.evaluateAndAcquire_only trivial fun _ => trivial

theorem updateIdempotencyOutcome {status : String} : (updateIdempotencyOutcome job status).Only Steady := by
  unfold JobPlatform.updateIdempotencyOutcome
  split
  case isTrue  => trivial
  case isFalse => exact ⟨trivial, fun _ => ⟨trivial, fun _ => trivial⟩⟩

theorem dependencyReadiness {dependencies : List JobDependency} :
    (Worker.dependencyReadiness job dependencies).Only Steady := by
  have hr (policy count) (allSatisfied) :
      (Worker.readinessOf policy count dependencies allSatisfied).Only Steady := by
    induction dependencies generalizing allSatisfied
    case nil        => trivial
    case cons d _ hi =>
      refine ⟨trivial, fun r => ?_⟩
      cases r
      case error  => trivial
      case ok job =>
        cases policy
        case allowFailed => exact hi _
        case block       =>
          simp only [Prog.ret_bind]
          split
          case isTrue  => trivial
          case isFalse => exact hi _
  unfold Worker.dependencyReadiness
  split
  case isTrue  => trivial
  case isFalse => exact hr ..

theorem resolveDependent : (Worker.resolveDependent job now).Only Steady := by
  refine ⟨trivial, fun r => ?_⟩
  cases r
  case error           => trivial
  case ok dependencies =>
    refine dependencyReadiness.bind fun (ready, blockedReason) => ?_
    cases ready
    case true  =>
      refine ⟨trivial, fun _ => ⟨trivial, fun r => ?_⟩⟩
      cases r
      case error => trivial
      case ok    => exact ⟨trivial, fun _ => trivial⟩
    case false =>
      dsimp only
      simp only [Bool.false_eq_true, if_false]
      split
      all_goals
        split
        case isTrue  => trivial
        case isFalse => exact ⟨trivial, fun _ => trivial⟩

theorem resolveDependents : (Worker.resolveDependents job now).Only Steady := by
  have hr (dependents : List Job) : (Worker.resolveAll now dependents).Only Steady := by
    induction dependents
    case nil                  => trivial
    case cons dependent _ hi =>
      unfold Worker.resolveAll
      split
      case isTrue  => exact resolveDependent.bind fun _ => hi
      case isFalse => exact hi
  refine ⟨trivial, fun r => ?_⟩
  cases r
  case error => trivial
  case ok    => exact hr _

section

variable {r : Runtime} {err : HandlerError} {started finished : Time} {leased : LeasedJob}
         {policies : List RateLimitPolicy} {handling : Option Handling} {outcome : Except HandlerError String}

-- The end of a program does not matter.
theorem steady (h : p.Only Steady) (hq : ∀ jobID, q ≠ .leased jobID) : p.Follows Recording (fun _ _ => True) q :=
  (follows_of_steady h hq).mono fun _ _ _ => trivial

-- There is no job to be loaded when the program ends.
def Loaded (_ : Unit) (q : State) : Prop :=
  ∀ jobID, q ≠ .leased jobID

theorem loaded_attempt {jobID : JobID} {number : Int} : Loaded () (.attempt jobID number) :=
  nofun

theorem loaded_idle : Loaded () .idle :=
  nofun

theorem follows_of_loaded {p : Program Unit} (h : p.Only Steady) (hq : Loaded () q) : p.Follows Recording Loaded q :=
  (follows_of_steady h hq).mono fun _ q' (he : q' = q) => he ▸ hq

theorem throttle {retryAt : Time} {reason : String} :
    (Runtime.throttle job leaseToken retryAt reason).Follows Recording Loaded (.attempt job.id job.attempts) := by
  refine ⟨trivial, fun _ _ => ⟨trivial, fun _ _ => ⟨trivial, fun ok _ => ?_⟩⟩⟩
  match ok with
  | .error _  => exact loaded_idle
  | .ok false => exact loaded_idle
  | .ok true  => exact ⟨trivial, fun _ _ => loaded_idle⟩

theorem handleFailure : (r.handleFailure job leaseToken err started finished).Follows Recording Loaded
    (.attempt job.id job.attempts) := by
  refine ⟨trivial, fun ok _ => ?_⟩
  match ok with
  | .error _  => exact loaded_attempt
  | .ok false => exact loaded_attempt
  | .ok true  =>
    dsimp only
    split
    case h_1 => exact ⟨trivial, fun _ _ => ⟨.inr rfl, fun _ _ => loaded_attempt⟩⟩
    case h_2 =>
      let failed := Runtime.failedJob job err started finished
      refine ⟨trivial, fun _ _ => Prog.Follows.bind (p := JobPlatform.updateIdempotencyOutcome failed "failed") ?_⟩
      refine (follows_of_steady updateIdempotencyOutcome loaded_attempt).mono fun _ q hq => ?_
      subst hq
      exact ⟨.inr rfl, fun _ _ => ⟨trivial, fun _ _ => follows_of_loaded resolveDependents loaded_attempt⟩⟩

theorem finish : (r.finish job leaseToken outcome started).Follows Recording Loaded
    (.attempt job.id job.attempts) := by
  refine ⟨trivial, fun finished _ => ?_⟩
  cases outcome
  case error err => exact handleFailure
  case ok result =>
    refine ⟨trivial, fun ok _ => ?_⟩
    match ok with
    | .error _  => exact loaded_attempt
    | .ok false => exact loaded_attempt
    | .ok true  =>
      let completed := Runtime.completedJob job result started finished
      refine ⟨trivial, fun _ _ =>
        Prog.Follows.bind (p := JobPlatform.updateIdempotencyOutcome completed "completed") ?_⟩
      refine (follows_of_steady updateIdempotencyOutcome loaded_attempt).mono fun _ q hq => ?_
      subst hq
      exact ⟨.inr rfl, fun _ _ => follows_of_loaded resolveDependents loaded_attempt⟩

-- All records of an attempt have the number with which it has been loaded.
theorem execute : (r.execute job leaseToken policies handling started).Follows Recording Loaded
    (.attempt job.id job.attempts) := by
  refine ⟨trivial, fun _ _ => ⟨.inr rfl, fun _ _ => ?_⟩⟩
  cases handling
  case none   => exact handleFailure
  case some h => exact ⟨trivial, fun _ _ => finish⟩

theorem process : (r.process leased policies handling).Follows Recording Loaded
    (.attempt leased.job.id leased.job.attempts) := by
  refine ⟨trivial, fun started _ => ?_⟩
  dsimp only
  split
  case isFalse => exact execute
  case isTrue  =>
    let job := r.leasedJob leased started
    refine Prog.Follows.bind (p := Limiter.evaluateAndAcquire job policies r.leaseTTL) ?_
    refine (follows_of_steady evaluateAndAcquire loaded_attempt).mono fun res q hq => ?_
    subst hq
    cases res
    case error e     => exact throttle
    case ok decision =>
      dsimp only
      split
      case isTrue  => exact .bind <| execute.mono fun _ q hq => follows_of_loaded forConcurrency hq
      case isFalse => exact throttle

theorem work {handler : Job → Option Handling} : (r.work policies handler).Follows Recording Loaded .idle := by
  have hp (leased : LeasedJob) : (r.process leased policies (handler leased.job)).Follows Recording Loaded
      (.attempt leased.job.id leased.job.attempts) := process
  refine ⟨trivial, fun now _ => ⟨rfl, fun res _ => ?_⟩⟩
  match res with
  | .error _                       => exact loaded_idle
  | .ok none                       => exact loaded_idle
  | .ok (some (jobID, leaseToken)) =>
    refine ⟨rfl, fun res _ => ?_⟩
    match res with
    | .error _ => exact loaded_idle
    | .ok job  => exact hp { job := { job with leaseToken }, leaseToken }

end

end Recording
end JobPlatform
