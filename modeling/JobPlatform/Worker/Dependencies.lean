import JobPlatform.System.World

namespace JobPlatform.Worker

-- The loop of `dependencyReadiness`, which goes on after a dependency that is not finished yet.
def readinessOf (policy : DependencyFailurePolicy) (count : Nat) :
    List JobDependency → (allSatisfied : Bool) → Program (Bool × String)
  | [],                 allSatisfied => return if allSatisfied then (true, "") else (false, waitingOn count)
  | dependency :: rest, allSatisfied => do
    match ← repo (.getJob dependency.dependsOnJobID) with
    | .error _ =>
      return (false, "dependency " ++ dependency.dependsOnJobID ++ " could not be loaded")
    | .ok job =>
      match policy with
      | .allowFailed =>
        let finished := job.state = .completed ∨ job.state = .failed ∨ job.state = .canceled
        readinessOf policy count rest (allSatisfied && finished)
      | .block =>
        if job.state = .failed ∨ job.state = .canceled then
          return (false, "dependency " ++ job.id ++ " finished as " ++ toString job.state)
        else
          readinessOf policy count rest (allSatisfied && job.state = .completed)

def dependencyReadiness (job : Job) (dependencies : List JobDependency) : Program (Bool × String) :=
  if dependencies = [] then
    return (true, "")
  else
    readinessOf job.dependencyPolicy dependencies.length dependencies true

def blockedJob (dependent : Job) (blockedReason : String) (now : Time) : Job :=
  { dependent with
    state         := .blocked
    blockedReason := blockedReason
    updatedAt     := now
  }

def releasedJob (dependent : Job) (now : Time) : Job :=
  { dependent with
    blockedReason := ""
    state         := if now < dependent.runAt then .scheduled else .queued
    updatedAt     := now
  }

-- The loop body of `resolveDependents` for a dependent which was blocked when it was read.
def resolveDependent (dependent : Job) (now : Time) : Program Unit := do
  match ← repo (.listDependencies dependent.id) with
  | .error _         => return ()
  | .ok dependencies =>
    let (ready, blockedReason) ← dependencyReadiness dependent dependencies
    if ready then
      match ← Broker.enqueue (releasedJob dependent now) with
      | .error _ => return ()
      | .ok ()   =>
        let _ ← repo (.markJobQueued <| releasedJob dependent now)
        return ()
    else
      let blockedReason := if blockedReason = "" then waitingOn dependencies.length else blockedReason
      if dependent.blockedReason = blockedReason then
        return ()
      else
        let _ ← repo (.markJobQueued <| blockedJob dependent blockedReason now)
        return ()

def resolveAll (now : Time) : List Job → Program Unit
  | []                => return ()
  | dependent :: rest => do
    if dependent.state = .blocked then
      resolveDependent dependent now
    resolveAll now rest

def resolveDependents (upstream : Job) (now : Time) : Program Unit := do
  match ← repo (.listDependentJobs upstream.id) with
  | .error _       => return ()
  | .ok dependents => resolveAll now dependents

end JobPlatform.Worker
