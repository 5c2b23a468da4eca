import JobPlatform.Scheduler.Agreement
import JobPlatform.Service.Agreement

namespace JobPlatform

variable {w : World} {j : JobID} {op : Operation} {is : List Nat} {res : Except Error Unit} {q : Unit}

namespace Operation

-- An operation diverges if it cancels a job which only the broker cancels in its state, if it replays
-- a job that is to be canceled, or if it leases a job only to throttle it.
def Diverges (j : JobID) (w : World) : Operation → Prop
  | cancelJob jobID         => jobID = j ∧ (w.postgres.summaries j).any (Manager.keepsRow ·.state)
  | replayDeadLetters req   => j ∈ Manager.replayed req w ∧ (w.postgres.summaries j).any (·.cancelRequested)
  | work r policies _       => r.Throttles policies j w
  | _                       => False

-- The recovery ends early if its script fails or if the scheduler crashes.
def Completes (res : Except Error Unit) : Operation → Prop
  | recoverExpired _ => res = .ok ()
  | _                => True

theorem ensures (hk : Keyed w) (ha : Agree j w) :
    op.program.EnsuresAlone unguarded SameSummaries
      (fun res w' => op.Completes res → (Agree j w' ↔ ¬op.Diverges j w)) w := by
  have h : Good j w := ⟨hk, ha⟩
  have kept (w' : World) (res) (hn : ¬op.Diverges j w) (h : Agree j w') :
      op.Completes res → (Agree j w' ↔ ¬op.Diverges j w) :=
    fun _ => iff_of_true h hn
  have torn (w' : World) (res) (hd : op.Diverges j w) (h : ¬Agree j w') :
      op.Completes res → (Agree j w' ↔ ¬op.Diverges j w) :=
    fun _ => iff_of_false h (not_not.mpr hd)
  cases op
  case enqueueJob     =>
    exact ((Manager.enqueueJob_agree ha).map fun _ w' h => kept w' _ (by simp [Diverges]) h).alone
  case retryJob       =>
    exact ((Manager.retryJob_agree h.rowsKeyed ha).map fun _ w' h => kept w' _ (by simp [Diverges]) h).alone
  case activateDue    =>
    exact ((Scheduler.activateDue_agree h).mono fun res w' h => kept w' res (by simp [Diverges]) h).alone
  case recoverExpired =>
    exact ((Scheduler.recoverExpired_agree h).mono fun _ _ h hr => iff_of_true (h hr) (by simp [Diverges])).alone
  case cancelJob jobID =>
    by_cases hd : (cancelJob jobID).Diverges j w
    case pos =>
      have ⟨hj, hs⟩ := hd
      have ⟨s, hs, hc⟩ := Option.any_eq_true _ _ |>.mp hs
      subst hj
      exact ((Manager.cancelJob_disagree h.rowsKeyed ha hs hc).map fun _ w' h => torn w' _ hd h).alone
    case neg =>
      have hn (hj : jobID = j) (s) (hs : w.postgres.summaries j = some s) : Manager.keepsRow s.state = false := by
        simpa [Diverges, hj, hs] using hd
      exact ((Manager.cancelJob_agree h.rowsKeyed ha hn).map fun _ w' h => kept w' _ hd h).alone
  case replayDeadLetters req =>
    by_cases hd : (replayDeadLetters req).Diverges j w
    case pos =>
      have ⟨hj, hs⟩ := hd
      have ⟨s, hs, hc⟩ := Option.any_eq_true _ _ |>.mp hs
      have ht := Manager.replayDeadLetters_tears h.rowsKeyed ha hj hs hc
      exact (ht.map fun _ w' h => torn w' _ hd h.not_agree).alone
    case neg =>
      have hn (hj : j ∈ Manager.replayed req w) (s) (hs : w.postgres.summaries j = some s) :
          s.cancelRequested = false := by
        simpa [Diverges, hj, hs] using hd
      exact ((Manager.replayDeadLetters_agree h.rowsKeyed ha hn).map fun _ w' h => kept w' _ hd h).alone
  case work r policies handler =>
    by_cases hd : (work r policies handler).Diverges j w
    case pos => exact (Runtime.work_ahead h hd).map fun _ w' h => torn w' _ hd h.not_agree
    case neg => exact (Runtime.work_good h hd).map fun _ w' h => kept w' _ hd h.agree

theorem quiet_forks (c : Call) : ∀ p ∈ unguarded.forks c, p.prog.Quiet unguarded SameSummaries := by
  cases c
  case heartbeats =>
    intro p hp
    rw [List.mem_singleton.mp hp]
    exact quiet_heartbeatLoop.bind fun _ => trivial
  all_goals exact fun p hp => nomatch hp

-- An operation that runs alone, apart from its own heartbeat loop, keeps the stores in agreement about
-- a job exactly if it does not diverge.
theorem agree_iff_of_alone (hk : Keyed w) (ha : Agree j w)
    (hr : (Run.last (Pool.step unguarded) (.alone w op.program ()) (is.map .run)).procs[0]? = some ⟨.ret res, q⟩)
    (hc : op.Completes res) :
    Agree j (Run.last (Pool.step unguarded) (.alone w op.program ()) (is.map .run)).world ↔ ¬op.Diverges j w :=
  Pool.Ensuring.last quiet_forks (ensures hk ha) hr hc

end Operation

-- A world which stores a single job.
def World.storing (job : Job) : World :=
  { World.sample with
    redis    := RedisBroker.enqueue job job.createdAt .empty
    postgres := { Postgres.empty with jobs := Function.update (fun _ => none) job.id (some job) }
  }

section

variable {job : Job}

theorem storing_redis : (World.storing job).redis.summaries j = if j = job.id then some job.summary else none :=
  RedisBroker.enqueue_summaries

theorem storing_postgres :
    (World.storing job).postgres.summaries j = if j = job.id then some job.summary else none := by
  by_cases hj : j = job.id
  case pos => simp [World.storing, Postgres.summaries, hj]
  case neg => simp [World.storing, Postgres.summaries, hj]

theorem storing_agree : Agree j (.storing job) := by
  rw [Agree, storing_redis, storing_postgres]

theorem storing_keyed : Keyed (.storing job) := by
  intro j s hs
  rw [storing_redis, storing_postgres, or_self] at hs
  split at hs
  case isTrue hj => cases hs; exact hj.symm
  case isFalse   => cases hs

end

namespace Operation

def sampleJob (state : JobState) : Job :=
  { buildJob (.ofUnixMilli 1700000000000) (.plain "email.send") "job-1" with state }

-- A job that has failed is retried.
theorem agree_iff_of_alone_sample :
    let w := World.storing (sampleJob .failed)
    let op := Operation.retryJob "job-1"
    Agree "job-1" (Run.last (Pool.step unguarded) (.alone w op.program ()) ([0, 0, 0, 0, 0].map .run)).world ↔
    ¬op.Diverges "job-1" w :=
  @agree_iff_of_alone _ _ _ _ (.ok ()) () storing_keyed storing_agree rfl trivial

-- The broker cancels a throttled job, but the database keeps its state.
theorem not_agree_of_cancelJob :
    let w := World.storing (sampleJob .throttled)
    let s := Run.last (Pool.step unguarded) (.alone w (cancelJob "job-1").program ())
      ([0, 0, 0, 0, 0, 0].map .run)
    Keyed w ∧ Agree "job-1" w ∧ s.procs[0]? = some ⟨.ret (.ok ()), ()⟩ ∧ ¬Agree "job-1" s.world :=
  ⟨storing_keyed, storing_agree, rfl, by decide⟩

end Operation
end JobPlatform
