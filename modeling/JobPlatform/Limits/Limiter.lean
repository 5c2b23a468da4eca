import JobPlatform.System.World

namespace JobPlatform

instance : ToString RateLimitMode where
  toString
    | .rate        => "rate"
    | .concurrency => "concurrency"

instance : ToString RateLimitScope where
  toString
    | .global  => "global"
    | .queue   => "queue"
    | .jobType => "job_type"
    | .tenant  => "tenant"

structure ThrottleReason where
  policyID   : String
  policyName : String
  scope      : RateLimitScope
  mode       : RateLimitMode
  retryAt    : Time
  message    : String

structure Decision where
  allowed     : Bool
  retryAt     : Time
  reasons     : List ThrottleReason
  activeRate  : List (RateLimitPolicy × String)
  activeSlots : List (RateLimitPolicy × String)

def RateLimitPolicy.appliesTo (policy : RateLimitPolicy) (job : Job) : Bool :=
  policy.enabled && match policy.scope with
    | .global  => true
    | .queue   => policy.scopeValue = job.queue
    | .jobType => policy.scopeValue = job.type
    | .tenant  => policy.scopeValue = job.tenantID

namespace Limiter

def applicablePolicies (job : Job) (policies : List RateLimitPolicy) : List RateLimitPolicy :=
  policies.filter (·.appliesTo job)

def buildReason (policy : RateLimitPolicy) (retryAt : Time) : ThrottleReason where
  policyID   := policy.id
  policyName := policy.name
  scope      := policy.scope
  mode       := policy.mode
  retryAt    := retryAt
  message    := toString policy.scope ++ " " ++ toString policy.mode ++ " limit hit"

def maxTime (current candidate : Time) : Time :=
  if current = .zero ∨ current < candidate then candidate else current

def deny (decision : Decision) (policy : RateLimitPolicy) (retryAt : Time) : Decision :=
  { decision with
    allowed := false
    retryAt := maxTime decision.retryAt retryAt
    reasons := decision.reasons ++ [buildReason policy retryAt]
  }

def releaseAll (call : String → String → LimiterCall) : List (RateLimitPolicy × String) → Program Unit
  | []                       => return ()
  | (policy, member) :: rest => do
    let _ ← limiter (call policy.id member)
    releaseAll call rest

def rollback (decision : Decision) : Program Unit := do
  releaseAll .releaseRate decision.activeRate
  releaseAll .releaseConcurrency decision.activeSlots

def rateMember (job : Job) : String :=
  job.id ++ ":" ++ toString job.attempts

def acquireAll (job : Job) (leaseTTL : Duration) (now : Time) :
    List RateLimitPolicy → Decision → Program (Except Error Decision)
  | [],             decision => return .ok decision
  | policy :: rest, decision =>
    match policy.mode with
    | .rate => do
      match ← limiter (.acquireRate policy (rateMember job) now) with
      | .error e =>
        rollback decision
        return .error e
      | .ok (false, retryAt) => acquireAll job leaseTTL now rest (deny decision policy retryAt)
      | .ok (true, _)        =>
        acquireAll job leaseTTL now rest
          { decision with activeRate := decision.activeRate ++ [(policy, rateMember job)] }
    | .concurrency => do
      match ← limiter (.acquireConcurrency policy job.id now leaseTTL) with
      | .error e =>
        rollback decision
        return .error e
      | .ok (false, retryAt) => acquireAll job leaseTTL now rest (deny decision policy retryAt)
      | .ok (true, _)        =>
        acquireAll job leaseTTL now rest
          { decision with activeSlots := decision.activeSlots ++ [(policy, job.id)] }

def evaluateAndAcquire (job : Job) (policies : List RateLimitPolicy) (leaseTTL : Duration) :
    Program (Except Error Decision) := do
  let now ← timeNow
  let decision : Decision :=
    { allowed := true, retryAt := .zero, reasons := [], activeRate := [], activeSlots := [] }
  match ← acquireAll job leaseTTL now (applicablePolicies job policies) decision with
  | .error e     => return .error e
  | .ok decision =>
    if decision.allowed then
      return .ok decision
    else
      rollback decision
      return .ok decision

-- The first call that fails ends the procedure.
def forConcurrency (call : RateLimitPolicy → LimiterCall) : List RateLimitPolicy → Program Unit
  | []             => return ()
  | policy :: rest => do
    if policy.mode = .concurrency then
      match ← limiter (call policy) with
      | .error _ => return ()
      | .ok _    => forConcurrency call rest
    else
      forConcurrency call rest

def renew (job : Job) (policies : List RateLimitPolicy) (leaseTTL : Duration) : Program Unit := do
  let now ← timeNow
  forConcurrency (.renewConcurrency ·.id job.id now leaseTTL) (applicablePolicies job policies)

def release (job : Job) (policies : List RateLimitPolicy) : Program Unit :=
  forConcurrency (.releaseConcurrency ·.id job.id) (applicablePolicies job policies)

section

variable {ok : Call → Prop} {job : Job} {leaseTTL : Duration} {now : Time} {policies : List RateLimitPolicy}
         {decision : Decision}

theorem forConcurrency_only (call : RateLimitPolicy → LimiterCall) (h : ∀ q ∈ policies, ok (.limiter (call q))) :
    (forConcurrency call policies).Only ok := by
  induction policies
  case nil                 => trivial
  case cons policy rest hi =>
    have ⟨hp, hr⟩ := List.forall_mem_cons.mp h
    unfold forConcurrency
    split
    case isFalse => exact hi hr
    case isTrue  =>
      refine ⟨hp, fun r => ?_⟩
      cases r
      case error => trivial
      case ok    => exact hi hr

theorem releaseAll_only {call : String → String → LimiterCall} {acquired : List (RateLimitPolicy × String)}
    (h : ∀ id member, ok (.limiter (call id member))) : (releaseAll call acquired).Only ok := by
  induction acquired
  case nil            => trivial
  case cons a rest hi => exact ⟨h a.1.id a.2, fun _ => hi⟩

theorem rollback_only (hr : ∀ id member, ok (.limiter (.releaseRate id member)))
    (hs : ∀ id member, ok (.limiter (.releaseConcurrency id member))) : (rollback decision).Only ok :=
  (releaseAll_only hr).bind fun _ => releaseAll_only hs

theorem acquireAll_only (hr : ∀ id member, ok (.limiter (.releaseRate id member)))
    (hs : ∀ id member, ok (.limiter (.releaseConcurrency id member)))
    (ha : ∀ q ∈ policies, match q.mode with
      | .rate        => ok (.limiter (.acquireRate q (rateMember job) now))
      | .concurrency => ok (.limiter (.acquireConcurrency q job.id now leaseTTL))) :
    (acquireAll job leaseTTL now policies decision).Only ok := by
  induction policies generalizing decision
  case nil                 => trivial
  case cons policy rest hi =>
    have ⟨hp, ha⟩ := List.forall_mem_cons.mp ha
    unfold acquireAll
    revert hp
    cases policy.mode
    all_goals
      refine fun hp => ⟨hp, fun r => ?_⟩
      match r with
      | .error _       => exact (rollback_only hr hs).bind fun _ => trivial
      | .ok (false, _) => exact hi ha
      | .ok (true, _)  => exact hi ha

theorem evaluateAndAcquire_only (hn : ok .now) (hl : ∀ c, ok (.limiter c)) :
    (evaluateAndAcquire job policies leaseTTL).Only ok := by
  refine ⟨hn, fun now => (acquireAll_only (fun _ _ => hl _) (fun _ _ => hl _) fun q _ => ?_).bind fun r => ?_⟩
  case refine_1 => cases q.mode <;> exact hl _
  case refine_2 =>
    cases r
    case error e     => trivial
    case ok decision =>
      dsimp only
      split
      case isTrue  => trivial
      case isFalse => exact (rollback_only (fun _ _ => hl _) fun _ _ => hl _).bind fun _ => trivial

end
end Limiter
end JobPlatform
