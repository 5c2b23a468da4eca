import JobPlatform.Library.Pool
import JobPlatform.Scheduler.Service
import JobPlatform.Service.Manager
import JobPlatform.Worker.Runtime

namespace JobPlatform

-- The procedures of the platform, each with its arguments.
inductive Operation
  | enqueueJob (m : Manager) (req : JobRequest) (jobID : JobID)
  | work (r : Runtime) (policies : List RateLimitPolicy) (handler : Job → Option Handling)
  | activateDue (s : Scheduler)
  | recoverExpired (s : Scheduler)
  | retryJob (jobID : JobID)
  | replayDeadLetters (req : DeadLetterReplayRequest)
  | cancelJob (jobID : JobID)

-- The result of a procedure does not matter here, except for its error.
def Operation.program : Operation → Program (Except Error Unit)
  | enqueueJob m req jobID    => do return (← m.enqueueJob req jobID).map fun _ => ()
  | work r policies handler   => do return .ok (← r.work policies handler)
  | activateDue s             => s.activateDue
  | recoverExpired s          => s.recoverExpired
  | retryJob jobID            => do return (← Manager.retryJob jobID).map fun _ => ()
  | replayDeadLetters req     => do return (← Manager.replayDeadLetters req).map fun _ => ()
  | cancelJob jobID           => do return (← Manager.cancelJob jobID).map fun _ => ()

-- The loops that are started by `heartbeats` run as processes of their own.
def platform (P : Protocol Call Call.Resp) (beating : Job → Token → P.State) : Pool.Semantics P (Except Error Unit) World where
  exec := World.exec
  forks
    | .heartbeats r job leaseToken policies rounds =>
      let loop := do return .ok (← r.heartbeatLoop job leaseToken policies rounds)
      [⟨loop, beating job leaseToken⟩]
    | _ => []

@[simp]
theorem platform_exec {P : Protocol Call Call.Resp} {beating : Job → Token → P.State} :
    (platform P beating).exec = World.exec :=
  rfl

end JobPlatform
