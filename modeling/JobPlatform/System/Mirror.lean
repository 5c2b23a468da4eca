import JobPlatform.Scheduler.DeadLetters
import JobPlatform.Service.DeadLetters
import JobPlatform.System.Consistency
import Mathlib.Logic.Relation

namespace JobPlatform

-- An operation, or the request of an operator to delete dead letters.
inductive Command
  | run (op : Operation)
  | deleteDeadLetters (jobIDs : List JobID)

namespace Command

variable {cmd : Command} {w w' : World}

def program : Command → Program (Except Error Unit)
  | run op                   => op.program
  | deleteDeadLetters jobIDs => Manager.deleteDeadLetters jobIDs

-- The command recovers all the leases that it should, unless its script fails or it crashes.
def Completes (res : Except Error Unit) : Command → Prop
  | run op              => op.Completes res
  | deleteDeadLetters _ => True

-- The command does not make a dead letter of a job which is one already, and takes no dead letter
-- out of one of the stores only.
def Spares (w : World) : Command → Prop
  | run (.enqueueJob ..)            => True
  | run (.activateDue _)            => True
  | run (.work r policies handler)  => ∀ j ∈ r.burying policies handler w, w.postgres.buried j = none
  | run (.recoverExpired s)         => ∀ j, s.verdict w j = some .failed → w.postgres.buried j = none
  | run (.retryJob jobID)           =>
    ∀ job ∈ w.postgres.jobs jobID, ∀ q ∈ w.postgres.buried jobID, q = job.queue
  | run (.replayDeadLetters req)    => ∀ j ∈ Manager.replayed req w,
    ∀ job ∈ w.postgres.jobs j, ∀ q ∈ w.postgres.buried j, q = Manager.replayQueue req job
  | run (.cancelJob jobID)          => ∀ h ∈ w.redis.jobs jobID,
    RedisBroker.isCancellable h.state → w.postgres.buried jobID ≠ some h.queue
  | deleteDeadLetters jobIDs        => ∀ j ∈ jobIDs, w.postgres.buried j = none

theorem ensures (h : Kept w) (hs : cmd.Spares w) :
    cmd.program.EnsuresAlone unguarded Calm (fun res w' => cmd.Completes res → Kept w') w := by
  cases cmd
  case deleteDeadLetters jobIDs =>
    exact Manager.deleteDeadLetters_forkFree.ensuresAlone.mpr fun _ => Manager.deleteDeadLetters_kept h hs
  case run op =>
    cases op
    case enqueueJob     => exact (Manager.enqueueJob_kept h).alone.map fun _ _ h _ => h
    case work           => exact (Runtime.work_kept h hs).map fun _ _ h _ => h
    case activateDue s  =>
      have hq : s.activateDue.Quiet unguarded Calm := Scheduler.quiet_activateDue
      exact hq.forkFree.ensuresAlone.mpr fun _ => h.calm hq.run
    case recoverExpired =>
      exact Scheduler.recoverExpired_forkFree.ensuresAlone.mpr fun hr => Scheduler.recoverExpired_kept h hs hr
    case retryJob       =>
      have hk := Manager.retryJob_kept h fun job q hj hq => hs job hj q hq
      exact (Manager.retryJob_forkFree.ensuresAlone.mpr hk).map fun _ _ h _ => h
    case replayDeadLetters =>
      have hk := Manager.replayDeadLetters_kept h fun j hj job q hr hq => hs j hj job hr q hq
      exact (Manager.replayDeadLetters_forkFree.ensuresAlone.mpr hk).map fun _ _ h _ => h
    case cancelJob      =>
      have hk := Manager.cancelJob_kept h hs
      exact (Manager.cancelJob_forkFree.ensuresAlone.mpr hk).map fun _ _ h _ => h

theorem quiet_forks (c : Call) : ∀ p ∈ unguarded.forks c, p.prog.Quiet unguarded Calm := by
  cases c
  case heartbeats =>
    intro p hp
    rw [List.mem_singleton.mp hp]
    exact quiet_heartbeatLoop.bind fun _ => trivial
  all_goals exact fun p hp => nomatch hp

-- The command is performed alone, apart from a heartbeat loop, and all of it succeeds.
def Performs (cmd : Command) (w w' : World) : Prop :=
  ∃ (is : List Nat) (res : Except Error Unit), cmd.Completes res ∧
    let s := Run.last (Pool.step unguarded) (.alone w cmd.program ()) (is.map .run)
    s.procs[0]? = some ⟨.ret res, ()⟩ ∧ s.world = w'

theorem Performs.kept (h : Kept w) (hs : cmd.Spares w) (hp : cmd.Performs w w') : Kept w' := by
  have ⟨is, res, hc, hr, hw⟩ := hp
  subst hw
  exact Pool.Ensuring.last quiet_forks (ensures h hs) hr hc

-- One command is performed after the other.
abbrev Runs (ok : Command → World → Prop) : World → World → Prop :=
  Relation.ReflTransGen fun w w' => ∃ cmd : Command, ok cmd w ∧ cmd.Performs w w'

theorem kept_of_empty (hr : w.redis = .empty) (hp : w.postgres = .empty) : Kept w := by
  constructor
  case mirrored =>
    intro j q
    simp [hr, hp, Redis.dlq, Redis.empty, Postgres.buried, Postgres.empty]
  case paired   =>
    constructor
    case keyed => exact fun j s hs => by simp [hr, Redis.summaries, Redis.empty] at hs
    case rows  => exact fun j => by rw [hr, hp]; rfl

theorem Runs.kept (h : Kept w) (hr : Runs (·.Spares) w w') : Kept w' := by
  induction hr
  case refl       => exact h
  case tail hs hk =>
    have ⟨cmd, hs, hp⟩ := hs
    exact hp.kept hk hs

-- As long as the commands spare the dead letters, both stores have the same ones.
theorem mirrored_of_spared (hr : w.redis = .empty) (hp : w.postgres = .empty) (hs : Runs (·.Spares) w w') :
    Mirrored w' :=
  (Runs.kept (kept_of_empty hr hp) hs).mirrored

-- A worker without handlers, which fails the only attempt of a job.
def worker : Runtime where
  workerID          := "worker-1"
  queues            := ["default"]
  leaseTTL          := 30 * Duration.second
  heartbeatInterval := 10 * Duration.second
  baseRetryDelay    := 5 * Duration.second
  maxRetryDelay     := 15 * Duration.minute
  limited           := false

def enqueue : Command :=
  run <| .enqueueJob .sample { JobRequest.plain "email.send" with maxAttempts := 1 } "job-1"

def work : Command :=
  run <| .work worker [] fun _ => none

-- The world after a command without handlers has been performed.
def performed (cmd : Command) (w : World) : World :=
  (Run.last (Pool.step unguarded) (.alone w cmd.program ()) ((List.replicate 16 0).map .run)).world

def buried : World :=
  work.performed <| enqueue.performed .sample

theorem enqueue_performs : enqueue.Performs .sample (enqueue.performed .sample) :=
  ⟨List.replicate 16 0, .ok (), trivial, rfl, rfl⟩

theorem work_performs : work.Performs (enqueue.performed .sample) buried :=
  ⟨List.replicate 16 0, .ok (), trivial, rfl, rfl⟩

theorem runs_buried {ok : Command → World → Prop} (he : ok enqueue .sample) (hw : ok work (enqueue.performed .sample)) :
    Runs ok .sample buried :=
  .tail (.single ⟨enqueue, he, enqueue_performs⟩) ⟨work, hw, work_performs⟩

-- A job fails for the last time, and an operator retries it.
theorem mirrored_of_spared_sample : Mirrored ((run (.retryJob "job-1")).performed buried) := by
  refine mirrored_of_spared (w := .sample) rfl rfl <| .tail (runs_buried trivial fun _ _ => rfl) ?_
  have hs : (run (.retryJob "job-1")).Spares buried := by
    intro job hj q hq
    cases hj
    cases hq
    rfl
  exact ⟨run (.retryJob "job-1"), hs, List.replicate 16 0, .ok (), trivial, rfl, rfl⟩

-- An operator deletes the dead letter instead, which the broker keeps.
theorem not_mirrored_of_deleteDeadLetters :
    let w := (deleteDeadLetters ["job-1"]).performed buried
    Runs (fun _ _ => True) .sample w ∧ w.postgres.buried "job-1" = none ∧
    w.redis.dlq "default" = ["job-1"] ∧ ¬Mirrored w := by
  intro w
  have hb : w.postgres.buried "job-1" = none := by decide
  have hl : w.redis.dlq "default" = ["job-1"] := by decide
  have hp : (deleteDeadLetters ["job-1"]).Performs buried w :=
    ⟨List.replicate 16 0, .ok (), trivial, rfl, rfl⟩
  refine ⟨.tail (runs_buried trivial trivial) ⟨_, trivial, hp⟩, hb, hl, fun hm => ?_⟩
  have hm := hm "job-1" "default"
  simp [hb, hl] at hm

end Command

end JobPlatform
