import JobPlatform.System.Platform

namespace JobPlatform

theorem updateIdempotencyOutcome_only {job : Job} {status : String} {ok : Call → Prop} (hn : ok .now)
    (hu : ∀ now, ok (.repo (.updateIdempotencyOutcome job status now))) :
    (updateIdempotencyOutcome job status).Only ok := by
  unfold updateIdempotencyOutcome
  split
  case isTrue  => trivial
  case isFalse => exact ⟨hn, fun now => ⟨hu now, fun _ => trivial⟩⟩

namespace Scheduler

-- The calls of which the sweeps of the scheduler are made up.
def Sweeps : Call → Prop
  | .now                               => True
  | .broker (.activateDue ..)          => True
  | .broker (.recoverExpired ..)       => True
  | .broker (.loadJob _)               => True
  | .repo (.markJobQueued _)           => True
  | .repo (.markJobRetrying ..)        => True
  | .repo (.markJobFailed _)           => True
  | .repo (.markJobCanceled _)         => True
  | .repo (.upsertJobAttempt _)        => True
  | .repo (.upsertDeadLetter _)        => True
  | .repo (.updateIdempotencyOutcome ..) => True
  | _                                  => False

variable {s : Scheduler} {job : Job}

theorem activateDue_sweeps : s.activateDue.Only Sweeps := by
  have hm (jobIDs : List JobID) : (markActivated jobIDs).Only Sweeps := by
    induction jobIDs
    case nil       => trivial
    case cons _ hi =>
      refine ⟨trivial, fun res => ?_⟩
      cases res
      case error => exact hi
      case ok    => exact ⟨trivial, fun _ => hi⟩
  refine ⟨trivial, fun _ => ⟨trivial, fun res => ?_⟩⟩
  cases res
  case error     => trivial
  case ok jobIDs => exact (hm jobIDs).bind fun _ => trivial

theorem markRetried_sweeps {retryAt : Option Time} : (markRetried job retryAt).Only Sweeps := by
  have hv (value : Option Time) : (valueOrNow value).Only Sweeps := by
    cases value
    case none   => exact ⟨trivial, fun _ => trivial⟩
    case some _ => trivial
  have hr : (Prog.bind (fun started => Prog.call Call.now fun finished =>
      Prog.call (Call.repo (.upsertJobAttempt <| expiredAttempt job started finished)) fun _ =>
        .ret (if retryAt.isSome then .ok () else .error .nilDereference : Except Error Unit))
      (valueOrNow job.startedAt)).Only Sweeps :=
    (hv _).bind fun _ => ⟨trivial, fun _ => ⟨trivial, fun _ => trivial⟩⟩
  cases retryAt
  case none   => exact hr
  case some _ => exact ⟨trivial, fun _ => hr⟩

theorem recoverExpired_sweeps : s.recoverExpired.Only Sweeps := by
  have hm (items : List RecoveredLease) : (markRecovered items).Only Sweeps := by
    induction items
    case nil             => trivial
    case cons item _ hi =>
      refine ⟨trivial, fun res => ?_⟩
      cases res
      case error  => exact hi
      case ok job =>
        dsimp only
        split
        case h_1 =>
          refine Prog.Only.bind (p := markRetried job item.retryAt) markRetried_sweeps fun res => ?_
          cases res
          case error => trivial
          case ok    => exact hi
        case h_2 =>
          refine Prog.Only.bind (p := markFailed job) ?_ fun _ => hi
          exact ⟨trivial, fun _ => ⟨trivial, fun _ => ⟨trivial, fun _ =>
            updateIdempotencyOutcome_only trivial fun _ => trivial⟩⟩⟩
        case h_3 => exact ⟨trivial, fun _ => ⟨trivial, fun _ => hi⟩⟩
        case h_4 => exact hi
  refine ⟨trivial, fun _ => ⟨trivial, fun res => ?_⟩⟩
  cases res
  case error    => trivial
  case ok items => exact hm items

end Scheduler

namespace Manager

-- The calls of which the procedures of operators are made up.
def Operates : Call → Prop
  | .now                          => True
  | .broker (.retry ..)           => True
  | .broker (.loadJob _)          => True
  | .broker (.cancelLoaded ..)    => True
  | .repo (.getJob _)             => True
  | .repo (.markJobQueued _)      => True
  | .repo (.markJobCanceled _)    => True
  | .repo (.deleteDeadLetters _)  => True
  | _                             => False

variable {jobID : JobID}

theorem retryJob_operates : (retryJob jobID).Only Operates := by
  refine ⟨trivial, fun res => ?_⟩
  cases res
  case error  => trivial
  case ok job =>
    refine ⟨trivial, fun now => ⟨trivial, fun res => ?_⟩⟩
    cases res
    case error => trivial
    case ok    =>
      refine ⟨trivial, fun res => ?_⟩
      cases res
      case error => trivial
      case ok    => exact ⟨trivial, fun _ => trivial⟩

theorem replayDeadLetters_operates {req : DeadLetterReplayRequest} : (replayDeadLetters req).Only Operates := by
  have hr (now : Time) (jobIDs : List JobID) (replayed : List Job) : (replayAll req now jobIDs replayed).Only Operates := by
    induction jobIDs generalizing replayed
    case nil       => trivial
    case cons _ hi =>
      refine ⟨trivial, fun res => ?_⟩
      cases res
      case error  => trivial
      case ok job =>
        refine ⟨trivial, fun res => ?_⟩
        cases res
        case error => trivial
        case ok    =>
          refine ⟨trivial, fun res => ?_⟩
          cases res
          case error => trivial
          case ok    =>
            refine ⟨trivial, fun res => ?_⟩
            cases res
            case error => trivial
            case ok    => exact hi _
  exact ⟨trivial, fun _ => hr ..⟩

theorem cancelJob_operates : (cancelJob jobID).Only Operates := by
  refine ⟨trivial, fun res => ?_⟩
  cases res
  case error  => trivial
  case ok job =>
    refine ⟨trivial, fun res => ?_⟩
    cases res
    case error  => trivial
    case ok job =>
      refine ⟨trivial, fun _ => ⟨trivial, fun res => ?_⟩⟩
      cases res
      case error => trivial
      case ok    =>
        refine ⟨trivial, fun _ => ⟨trivial, fun res => ?_⟩⟩
        cases res
        case error => trivial
        case ok    => trivial

end Manager

namespace Runtime

-- The calls of which the work on a job is made up, until its dependents are resolved.
def Works : Call → Prop
  | .now                                        => True
  | .heartbeats ..                              => True
  | .limiter _                                  => True
  | .broker (.dequeue ..)                       => True
  | .broker (.loadJob _)                        => True
  | .broker (.heartbeat ..)                     => True
  | .broker (.complete _ leaseToken ..)         => leaseToken ≠ ""
  | .broker (.fail _ leaseToken ..)             => leaseToken ≠ ""
  | .broker (.requeueThrottled _ leaseToken ..) => leaseToken ≠ ""
  | .repo (.markJobActive _)                    => True
  | .repo (.markJobCompleted _)                 => True
  | .repo (.markJobRetrying ..)                 => True
  | .repo (.markJobFailed _)                    => True
  | .repo (.markJobThrottled _)                 => True
  | .repo (.updateJobHeartbeat ..)              => True
  | .repo (.upsertJobAttempt _)                 => True
  | .repo (.upsertDeadLetter _)                 => True
  | .repo (.updateIdempotencyOutcome ..)        => True
  | _                                           => False

variable {r : Runtime} {job : Job} {leaseToken : Token} {policies : List RateLimitPolicy}

theorem forConcurrency_works {call : RateLimitPolicy → LimiterCall} : (Limiter.forConcurrency call policies).Only Works :=
  Limiter.forConcurrency_only call fun _ _ => trivial

theorem evaluateAndAcquire_works {leaseTTL : Duration} : (Limiter.evaluateAndAcquire job policies leaseTTL).Only Works :=
  Limiter.evaluateAndAcquire_only trivial fun _ => trivial

theorem heartbeatLoop_works {rounds : Nat} : (r.heartbeatLoop job leaseToken policies rounds).Only Works := by
  induction rounds
  case zero           => trivial
  case succ rounds hi =>
    refine ⟨trivial, fun now => ⟨trivial, fun ok => ?_⟩⟩
    obtain _ | _ | _ := ok
    · trivial
    · trivial
    · refine ⟨trivial, fun heartbeatAt => ⟨trivial, fun _ => ?_⟩⟩
      dsimp only
      split
      case isFalse => exact hi
      case isTrue  => exact ⟨trivial, fun _ => forConcurrency_works.bind fun _ => hi⟩

theorem throttle_works {retryAt : Time} {reason : String} (ht : leaseToken ≠ "") :
    (throttle job leaseToken retryAt reason).Only Works := by
  refine ⟨trivial, fun _ => ⟨trivial, fun _ => ⟨ht, fun ok => ?_⟩⟩⟩
  obtain _ | _ | _ := ok
  · trivial
  · trivial
  · exact ⟨trivial, fun _ => trivial⟩

section

variable {P : Protocol Call Call.Resp} {idle : P.State} {err : HandlerError} {started finished : Time}
         {leased : LeasedJob} {handling : Option Handling} {outcome : Except HandlerError String}

-- In every state of the protocol, the worker may make its calls, and remains in the state. It resolves dependents from
-- the state `idle` on.
variable (stays : ∀ q c, Works c → P.Allows q c ∧ ∀ r, P.next q c r = q)
         (resolves : ∀ job now, (Worker.resolveDependents job now).Follows P (fun _ _ => True) idle)
include stays

theorem follows_of_works {α : Type} {p : Program α} {q : P.State} (h : p.Only Works) :
    p.Follows P (fun _ q' => q' = q) q :=
  h.follows (stays q)

theorem follows_call {α : Type} {c : Call} {k : c.Resp → Program α} {q : P.State} {post : α → P.State → Prop}
    (hc : Works c) (h : ∀ r, P.Expected c r → (k r).Follows P post q) : (Prog.call c k).Follows P post q := by
  have ⟨ha, hn⟩ := stays q c hc
  exact ⟨ha, fun r hr => by rw [hn]; exact h r hr⟩

theorem follows_bind {α β : Type} {p : Program α} {f : α → Program β} {q : P.State} {post : β → P.State → Prop}
    (hp : p.Only Works) (h : ∀ a, (f a).Follows P post q) : (p.bind f).Follows P post q :=
  .bind <| (follows_of_works stays hp).mono fun a q' hq => by
    subst hq
    exact h a

theorem ends_of_works {α : Type} {p : Program α} {q : P.State} (h : p.Only Works) : p.Follows P (fun _ _ => True) q :=
  (follows_of_works stays h).mono fun _ _ _ => trivial

include resolves

theorem handleFailure_follows (ht : leaseToken ≠ "") :
    (r.handleFailure job leaseToken err started finished).Follows P (fun _ _ => True) idle := by
  refine follows_call stays ht fun ok _ => ?_
  obtain _ | _ | _ := ok
  · trivial
  · trivial
  · split
    case h_1 => exact ends_of_works stays ⟨trivial, fun _ => ⟨trivial, fun _ => trivial⟩⟩
    case h_2 =>
      refine follows_call stays trivial fun _ _ => follows_bind stays
        (p := updateIdempotencyOutcome (failedJob job err started finished) "failed") ?_ fun _ => ?_
      · exact updateIdempotencyOutcome_only trivial fun _ => trivial
      · exact follows_call stays trivial fun _ _ => follows_call stays trivial fun _ _ => resolves ..

theorem finish_follows (ht : leaseToken ≠ "") :
    (r.finish job leaseToken outcome started).Follows P (fun _ _ => True) idle := by
  refine follows_call stays trivial fun finished _ => ?_
  cases outcome
  case error err => exact handleFailure_follows stays resolves ht
  case ok result =>
    refine follows_call stays ht fun ok _ => ?_
    obtain _ | _ | _ := ok
    · trivial
    · trivial
    · refine follows_call stays trivial fun _ _ => follows_bind stays
        (p := updateIdempotencyOutcome (completedJob job result started finished) "completed") ?_ fun _ => ?_
      · exact updateIdempotencyOutcome_only trivial fun _ => trivial
      · exact follows_call stays trivial fun _ _ => resolves ..

theorem execute_follows (ht : leaseToken ≠ "") :
    (r.execute job leaseToken policies handling started).Follows P (fun _ _ => True) idle := by
  refine follows_call stays trivial fun _ _ => follows_call stays trivial fun _ _ => ?_
  cases handling
  case none   => exact handleFailure_follows stays resolves ht
  case some h => exact follows_call stays trivial fun _ _ => finish_follows stays resolves ht

theorem process_follows (ht : leased.leaseToken ≠ "") :
    (r.process leased policies handling).Follows P (fun _ _ => True) idle := by
  refine follows_call stays trivial fun started _ => ?_
  dsimp only
  split
  case isFalse => exact execute_follows stays resolves ht
  case isTrue  =>
    refine follows_bind stays
      (p := Limiter.evaluateAndAcquire (r.leasedJob leased started) policies r.leaseTTL) evaluateAndAcquire_works
      fun res => ?_
    cases res
    case error e     => exact ends_of_works stays (throttle_works ht)
    case ok decision =>
      dsimp only
      split
      case isTrue  =>
        refine .bind <| (execute_follows stays resolves ht).mono fun _ _ _ => ?_
        exact ends_of_works stays forConcurrency_works
      case isFalse => exact ends_of_works stays (throttle_works ht)

-- It is enough to know that the broker hands out tokens.
theorem work_follows {handler : Job → Option Handling}
    (tokens : ∀ queues now lease, P.Expected (.broker (.dequeue r.workerID queues r.leaseTTL now)) (.ok (some lease)) →
      lease.2 ≠ "") : (r.work policies handler).Follows P (fun _ _ => True) idle := by
  refine follows_call stays trivial fun now _ => follows_call stays trivial fun res hres => ?_
  match res with
  | .error _      => trivial
  | .ok none      => trivial
  | .ok (some lease) =>
    refine follows_call stays trivial fun res _ => ?_
    cases res
    case error => trivial
    case ok    => exact process_follows stays resolves (tokens _ _ _ hres)

end
end Runtime
end JobPlatform
