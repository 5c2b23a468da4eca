import JobPlatform.Queue.Effects

namespace JobPlatform

-- The broker has no entry of the job, apart from a blocked hash.
structure Redis.Asleep (r : Redis) (j : JobID) : Prop where
  blocked  : ∀ h, r.jobs j = some h → h.state = .blocked ∧ h.leaseToken = ""
  waiting  : (r.zsets .delayed).score? j = none
  unleased : (r.zsets .activeLeases).score? j = none

-- The call does not wake the job up.
def BrokerCall.Spares (j : JobID) : BrokerCall → Prop
  | .enqueue job _                      => job.id = j → job.state = .blocked ∧ job.leaseToken = ""
  | .complete _ leaseToken ..           => leaseToken ≠ ""
  | .fail _ leaseToken ..               => leaseToken ≠ ""
  | .requeueThrottled _ leaseToken ..   => leaseToken ≠ ""
  | .retry ..                           => False
  | .cancelLoaded ..                    => False
  | _                                   => True

namespace Redis.Asleep

open RedisBroker

variable {b : RedisBroker} {r r' : Redis} {i j : JobID} {k : ListKey} {ids : List JobID} {job : Job} {c : BrokerCall}
         {leaseToken : Token} {body : Redis → Redis}

theorem of_unchanged (h : r.Asleep j) (hu : r.Unchanged j r') : r'.Asleep j where
  blocked x hx := h.blocked x (hu.jobs.symm.trans hx)
  waiting      := (hu.score .delayed).trans h.waiting
  unleased     := (hu.score .activeLeases).trans h.unleased

theorem lset (h : r.Asleep j) : (r.lset k ids).Asleep j :=
  ⟨h.blocked, h.waiting, h.unleased⟩

theorem zrem (h : r.Asleep j) : (r.zrem .activeLeases i).Asleep j where
  blocked  := h.blocked
  waiting  := by simpa [Redis.zrem_score?] using h.waiting
  unleased := by simp [Redis.zrem_score?, h.unleased]

-- The job has no lease that could be ended.
theorem endLease (h : r.Asleep j) (ht : leaseToken ≠ "") (hu : j ≠ i → ∀ r : Redis, r.Unchanged j (body r)) :
    (RedisBroker.endLease i leaseToken body r).1.Asleep j := by
  apply endLease_rule (Q := fun x => x.1.Asleep j) <;> dsimp only
  case rejected => exact h
  case accepted =>
    intro x hx he
    have hi : j ≠ i := by
      intro hi
      subst hi
      exact ht (he.symm.trans (h.blocked x hx).right)
    exact h.of_unchanged (.trans (.zrem hi) (hu hi _))

theorem enqueue {now : Time} (h : r.Asleep j) (hj : job.id = j → job.state = .blocked ∧ job.leaseToken = "") :
    (RedisBroker.enqueue job now r).Asleep j := by
  by_cases hi : j = job.id
  case neg => exact h.of_unchanged (enqueue_unchanged hi)
  case pos =>
    have ⟨hs, ht⟩ := hj hi.symm
    have he : RedisBroker.enqueue job now r = r.hset job.id fun _ => jobHash job := by
      simp [RedisBroker.enqueue, hs]
    rw [he]
    refine ⟨fun x hx => ?_, h.waiting, h.unleased⟩
    rw [hi, Redis.hset_jobs, if_pos rfl] at hx
    cases hx
    exact ⟨hs, ht⟩

theorem dequeueLua {workerID : WorkerID} {ttl now : Int} {keys : List ListKey} (h : r.Asleep j) :
    (b.dequeueLua workerID ttl now keys r).1.Asleep j := by
  apply dequeueLua_rule (P := fun r => r.Asleep j) (Q := fun r _ => r.Asleep j)
  case hr    => exact h
  case none  => exact fun _ h => h
  case drop  => exact fun _ _ _ _ h _ _ _ => h.lset
  case lease =>
    intro r k i rest x h _ _ hx hr
    have hi : j ≠ i := by
      intro hi
      subst hi
      simp [(h.blocked x hx).left, JobState.isRunnable] at hr
    exact h.lset.of_unchanged (lease_unchanged hi)

theorem heartbeatLua {ttl now : Int} (h : r.Asleep j) :
    (RedisBroker.heartbeatLua i leaseToken ttl now r).1.Asleep j := by
  apply heartbeatLua_rule (Q := fun x => x.1.Asleep j) <;> dsimp only
  case rejected => exact h
  case accepted =>
    intro x hx _ hs
    have hi : j ≠ i := by
      intro hi
      subst hi
      cases hs.symm.trans (h.blocked x hx).left
    exact h.of_unchanged (renew_unchanged hi)

theorem activateDueLua {limit now : Int} (h : r.Asleep j) : (RedisBroker.activateDueLua limit now r).1.Asleep j := by
  apply activateAll_rule (P := fun r => r.Asleep j) SortedSet.rangeByScore_nodup
  case hr => exact h
  case hs =>
    intro r' i _ _ hz h
    have hi : j ≠ i := by
      intro hi
      rw [← hi, h.waiting] at hz
      cases hz
    exact h.of_unchanged (activate_unchanged hi)

theorem recoverExpiredLua {limit now : Int} (h : r.Asleep j) : (b.recoverExpiredLua limit now r).1.Asleep j := by
  apply recoverAll_rule (P := fun r => r.Asleep j) SortedSet.rangeByScore_nodup
  case hr      => exact h
  case absent  => exact fun _ _ _ _ _ h => h.zrem
  case present =>
    intro r' i x _ _ hz _ h
    have hi : j ≠ i := by
      intro hi
      rw [← hi, h.unleased] at hz
      cases hz
    exact h.zrem.of_unchanged (recover_unchanged hi)

theorem failLua {errMessage : String} {retryAt : Option Int} {now : Int} (h : r.Asleep j) (ht : leaseToken ≠ "") :
    (RedisBroker.failLua job leaseToken errMessage retryAt now r).1.Asleep j := by
  refine h.endLease ht fun hi r => ?_
  cases retryAt
  case none   => exact .trans (.hset hi) (.lpush hi)
  case some _ => exact .trans (.hset hi) (.zadd hi)

theorem exec (h : r.Asleep j) (hc : c.Spares j) : (b.exec r c).1.Asleep j := by
  cases c
  case enqueue          => exact h.enqueue hc
  case loadJob          => exact h
  case dequeue          => exact h.dequeueLua
  case heartbeat        => exact h.heartbeatLua
  case complete         => exact h.endLease hc fun hi _ => .hset hi
  case fail             => exact h.failLua hc
  case requeueThrottled => exact h.endLease hc fun hi _ => .trans (.hset hi) (.zadd hi)
  case activateDue      => exact h.activateDueLua
  case recoverExpired   => exact h.recoverExpiredLua
  case retry            => exact hc.elim
  case cancelLoaded     => exact hc.elim

end Redis.Asleep

end JobPlatform
