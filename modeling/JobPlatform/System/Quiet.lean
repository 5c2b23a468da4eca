import JobPlatform.System.Platform

namespace JobPlatform

-- The operations have no protocol to follow here.
abbrev unguarded : Pool.Semantics (.any Call Call.Resp) (Except Error Unit) World :=
  platform (.any Call Call.Resp) fun _ _ => ()

theorem unguarded_exec : unguarded.exec = World.exec :=
  rfl

-- The calls which leave all but the times, attempts, records and limits as they are.
def Call.isTame : Call → Bool
  | now                                 => true
  | broker (.loadJob ..)                => true
  | broker (.heartbeat ..)              => true
  | repo (.getJob ..)                   => true
  | repo (.updateJobHeartbeat ..)       => true
  | repo (.listDependencies ..)         => true
  | repo (.listDependentJobs ..)        => true
  | repo (.upsertJobAttempt ..)         => true
  | repo (.updateIdempotencyOutcome ..) => true
  | limiter ..                          => true
  | _                                   => false

-- What may happen to the world between two calls of a procedure.
class Tolerates (Env : World → World → Prop) : Prop where
  tame : ∀ {c : Call} (w : World), c.isTame → Env w (w.exec c).1

variable {Env : World → World → Prop} [Tolerates Env] {c : Call} {job : Job}

theorem tame_call {α : Type} {k : c.Resp → Program α} (h : c.isTame)
    (hk : ∀ r, (k r).Quiet unguarded Env) : (Prog.call c k).Quiet unguarded Env := by
  refine ⟨?_, fun w => Tolerates.tame w h, hk⟩
  cases c <;> first | rfl | cases h

theorem quiet_forConcurrency {call : RateLimitPolicy → LimiterCall} {policies : List RateLimitPolicy} :
    (Limiter.forConcurrency call policies).Quiet unguarded Env := by
  induction policies
  case nil                 => trivial
  case cons policy rest hi =>
    unfold Limiter.forConcurrency
    split
    case isFalse => exact hi
    case isTrue  =>
      refine tame_call rfl fun r => ?_
      cases r
      case error => trivial
      case ok    => exact hi

theorem quiet_heartbeatLoop {r : Runtime} {leaseToken : Token} {policies : List RateLimitPolicy}
    {rounds : Nat} :
    (r.heartbeatLoop job leaseToken policies rounds).Quiet unguarded Env := by
  induction rounds
  case zero           => trivial
  case succ rounds hi =>
    refine tame_call rfl fun now => tame_call rfl fun ok => ?_
    match ok with
    | .error _   => trivial
    | .ok false  => trivial
    | .ok true   =>
      refine tame_call rfl fun heartbeatAt => tame_call rfl fun _ => ?_
      dsimp only
      split
      case isFalse => exact hi
      case isTrue  => exact tame_call rfl fun _ => quiet_forConcurrency.bind fun _ => hi

theorem quiet_releaseAll {call : String → String → LimiterCall} {acquired : List (RateLimitPolicy × String)} :
    (Limiter.releaseAll call acquired).Quiet unguarded Env := by
  induction acquired
  case nil           => trivial
  case cons a rest hi => exact tame_call rfl fun _ => hi

theorem quiet_rollback {decision : Decision} :
    (Limiter.rollback decision).Quiet unguarded Env :=
  quiet_releaseAll.bind fun _ => quiet_releaseAll

theorem quiet_acquireAll {leaseTTL : Duration} {now : Time} {policies : List RateLimitPolicy}
    {decision : Decision} :
    (Limiter.acquireAll job leaseTTL now policies decision).Quiet unguarded Env := by
  induction policies generalizing decision
  case nil                 => trivial
  case cons policy rest hi =>
    unfold Limiter.acquireAll
    cases policy.mode
    all_goals
      refine tame_call rfl fun r => ?_
      obtain _ | ⟨_ | _, _⟩ := r
      · exact quiet_rollback.bind fun _ => trivial
      · exact hi
      · exact hi

theorem quiet_evaluateAndAcquire (job : Job) (policies : List RateLimitPolicy) (leaseTTL : Duration) :
    (Limiter.evaluateAndAcquire job policies leaseTTL).Quiet unguarded Env := by
  refine tame_call rfl fun now => quiet_acquireAll.bind fun r => ?_
  cases r
  case error e     => trivial
  case ok decision =>
    dsimp only
    split
    case isTrue  => trivial
    case isFalse => exact quiet_rollback.bind fun _ => trivial

theorem quiet_updateIdempotencyOutcome {status : String} :
    (updateIdempotencyOutcome job status).Quiet unguarded Env := by
  unfold updateIdempotencyOutcome
  split
  case isTrue  => trivial
  case isFalse => exact tame_call rfl fun _ => tame_call rfl fun _ => trivial

theorem quiet_dependencyReadiness {dependencies : List JobDependency} :
    (Worker.dependencyReadiness job dependencies).Quiet unguarded Env := by
  have hr (policy count) (allSatisfied) :
      (Worker.readinessOf policy count dependencies allSatisfied).Quiet unguarded Env := by
    induction dependencies generalizing allSatisfied
    case nil        => trivial
    case cons d _ hi =>
      refine tame_call rfl fun r => ?_
      cases r
      case error  => trivial
      case ok job =>
        cases policy
        case allowFailed => exact hi _
        case block       =>
          simp only [Prog.ret_bind]
          split
          case isTrue  => trivial
          case isFalse => exact hi _
  unfold Worker.dependencyReadiness
  split
  case isTrue  => trivial
  case isFalse => exact hr ..

end JobPlatform
