import JobPlatform.Queue.Effects

namespace JobPlatform

-- The place which holds a job in the given state.
def JobHash.place (h : JobHash) : Option Place :=
  match h.state with
  | .queued                             => some <| .list <| .ready h.queue h.priority
  | .scheduled | .retrying | .throttled => some <| .zset .delayed
  | .active                             => some <| .zset .activeLeases
  | .failed                             => some <| .list <| .dlq h.queue
  | .blocked | .completed | .canceled   => none

namespace Redis

def place (r : Redis) (j : JobID) : Option Place :=
  (r.jobs j).bind (·.place)

-- The job `j` is exactly where its state says and nowhere else.
def Placed (r : Redis) (j : JobID) : Prop :=
  ∀ p, r.occurrences j p = if r.place j = some p then 1 else 0

-- The job `j` is nowhere.
def Absent (r : Redis) (j : JobID) : Prop :=
  ∀ p, r.occurrences j p = 0

-- Only the job `j` may be misplaced.
def PlacedBut (r : Redis) (j : JobID) : Prop :=
  ∀ k, k ≠ j → r.Placed k

-- A job holds a lease token only while it is active.
def Fenced (r : Redis) (j : JobID) : Prop :=
  ∀ h, r.jobs j = some h → h.leaseToken ≠ "" → h.state = .active

variable {r r' : Redis} {j : JobID} {f : JobHash → JobHash} {k : ListKey} {z : ZSetKey} {s : Score}
         {h : JobHash} {ids : List JobID}

theorem Placed.of_unchanged (hu : r.Unchanged j r') (h : r.Placed j) : r'.Placed j := by
  intro p
  rw [hu.occurrences, place, hu.jobs]
  exact h p

theorem Fenced.of_unchanged (hu : r.Unchanged j r') (h : r.Fenced j) : r'.Fenced j := by
  unfold Fenced
  rw [hu.jobs]
  exact h

theorem Placed.absent (h : r.Placed j) (hp : r.place j = none) : r.Absent j := by
  intro p
  simp [h p, hp]

theorem Placed.lrem (h : r.Placed j) (hp : r.place j = some (.list k)) : (r.lrem k j).Absent j := by
  intro p
  rw [lrem_occurrences, h p, hp]
  by_cases he : p = .list k <;> simp [he, eq_comm]

theorem Placed.lpop (h : r.Placed j) (hl : r.lists k = j :: ids) : (r.lset k ids).Absent j := by
  have ho (p : Place) := lpop_occurrences (j := j) (p := p) hl
  have hk := ho (.list k)
  simp only [h (.list k), and_self, if_true] at hk
  have hp : r.place j = some (.list k) := by
    by_cases hp : r.place j = some (.list k)
    case pos => exact hp
    case neg => simp [hp] at hk
  intro p
  have hp' := ho p
  rw [h p, hp] at hp'
  by_cases he : p = .list k
  case pos => simpa [he] using hp'
  case neg => simpa [he, eq_comm] using hp'

theorem Placed.zrem (h : r.Placed j) (hp : r.place j = some (.zset z)) : (r.zrem z j).Absent j := by
  intro p
  rw [zrem_occurrences, h p, hp]
  by_cases he : p = .zset z <;> simp [he, eq_comm]

theorem Absent.hset (h : r.Absent j) : (r.hset j f).Absent j :=
  h

theorem Absent.placed (h : r.Absent j) (hp : r.place j = none) : r.Placed j := by
  intro p
  simp [h p, hp]

theorem Absent.lpush (h : r.Absent j) (hp : r.place j = some (.list k)) : (r.lpush k j).Placed j := by
  have hp : (r.lpush k j).place j = some (.list k) := hp
  intro p
  rw [lpush_occurrences, h p, hp]
  simp [eq_comm]

theorem Absent.zadd (h : r.Absent j) (hp : r.place j = some (.zset z)) : (r.zadd z j s).Placed j := by
  have hp : (r.zadd z j s).place j = some (.zset z) := hp
  intro p
  rw [zadd_occurrences, h p, hp]
  simp [eq_comm]

theorem Placed.zadd (h : r.Placed j) (hp : r.place j = some (.zset z)) : (r.zadd z j s).Placed j := by
  have hp' : (r.zadd z j s).place j = some (.zset z) := hp
  intro p
  rw [zadd_occurrences, h p, hp, hp']
  by_cases he : p = .zset z <;> simp [he, eq_comm]

theorem Placed.hset (h : r.Placed j) (hp : (r.hset j f).place j = r.place j) : (r.hset j f).Placed j := by
  intro p
  rw [hp]
  exact h p

-- A list entry shows where its job is.
theorem Placed.of_mem (h : r.Placed j) (hl : j ∈ r.lists k) : r.place j = some (.list k) := by
  have hk := h (.list k)
  by_cases hp : r.place j = some (.list k)
  case pos => exact hp
  case neg => simp [hp, occurrences, List.count_eq_zero, hl] at hk

theorem Placed.of_score? (h : r.Placed j) (hz : ((r.zsets z).score? j).isSome) :
    r.place j = some (.zset z) := by
  have hk := h (.zset z)
  by_cases hp : r.place j = some (.zset z)
  case pos => exact hp
  case neg => simp [hp, occurrences, hz] at hk

end Redis

-- Every job is where its state says, and lease tokens are those of active jobs.
structure Placement (r : Redis) : Prop where
  placed : ∀ j, r.Placed j
  fenced : ∀ j, r.Fenced j

namespace Placement

open RedisBroker

variable {b : RedisBroker} {r r' : Redis} {j : JobID} {h : JobHash} {job : Job} {leaseToken : Token}
         {body : Redis → Redis} {ttl now : Int} {ids : List JobID} {k : ListKey}

theorem empty : Placement .empty where
  placed _ p := by cases p <;> simp [Redis.empty, Redis.occurrences, Redis.place]
  fenced _ _ := by simp [Redis.empty]

theorem update (hr : Placement r) (hu : ∀ i, i ≠ j → r.Unchanged i r') (hp : r'.Placed j)
    (hf : r'.Fenced j) : Placement r' where
  placed i :=
    if hi : i = j then hi ▸ hp else (hr.placed i).of_unchanged (hu i hi)
  fenced i :=
    if hi : i = j then hi ▸ hf else (hr.fenced i).of_unchanged (hu i hi)

-- The hash of an active job is the only one that may hold a token, and it gives the job's place.
theorem zrem_lease (hr : Placement r) (hj : r.jobs j = some h) (ht : h.leaseToken = leaseToken)
    (hn : leaseToken ≠ "") : (r.zrem .activeLeases j).Absent j := by
  have hs := hr.fenced j h hj (ht ▸ hn)
  refine (hr.placed j).zrem ?_
  simp [Redis.place, hj, JobHash.place, hs]

theorem endLease (hr : Placement r) (hn : leaseToken ≠ "")
    (hu : ∀ i, i ≠ j → ∀ r : Redis, r.Unchanged i (body r))
    (hb : ∀ h, r.jobs j = some h → (r.zrem .activeLeases j).Absent j →
      (body (r.zrem .activeLeases j)).Placed j ∧ (body (r.zrem .activeLeases j)).Fenced j) :
    Placement (endLease j leaseToken body r).1 := by
  apply endLease_rule (Q := fun x => Placement x.1) <;> dsimp only
  case rejected => exact hr
  case accepted =>
    intro h hj ht
    have ⟨hp, hf⟩ := hb h hj (hr.zrem_lease hj ht hn)
    exact hr.update (fun i hi => .trans (.zrem hi) (hu i hi _)) hp hf

theorem completeLua {result : String} (hr : Placement r) (hn : leaseToken ≠ "") :
    Placement (completeLua job leaseToken now result r).1 := by
  refine hr.endLease hn (fun i hi r => .hset hi) fun h hj ha => ⟨?_, ?_⟩
  · exact ha.hset.placed (by simp [Redis.place, JobHash.place, JobHash.complete])
  · simp [Redis.Fenced, JobHash.complete]

theorem failLua {errMessage : String} {retryAt : Option Int} (hr : Placement r)
    (hn : leaseToken ≠ "") (hq : ∀ h, r.jobs job.id = some h → job.queue = h.queue) :
    Placement (failLua job leaseToken errMessage retryAt now r).1 := by
  cases retryAt
  case some retryAt =>
    refine hr.endLease hn (fun i hi r => .trans (.hset hi) (.zadd hi)) fun h hj ha => ⟨?_, ?_⟩
    · exact ha.hset.zadd (by simp [Redis.place, JobHash.place, JobHash.retryAfterFailure])
    · simp [Redis.Fenced, JobHash.retryAfterFailure]
  case none =>
    refine hr.endLease hn (fun i hi r => .trans (.hset hi) (.lpush hi)) fun h hj ha => ⟨?_, ?_⟩
    · exact ha.hset.lpush (by simp [Redis.place, JobHash.place, JobHash.fail, hj, hq h hj])
    · simp [Redis.Fenced, JobHash.fail]

theorem throttleLua {reason : String} {retryAt : Int} (hr : Placement r) (hn : leaseToken ≠ "") :
    Placement (throttleLua job leaseToken now reason retryAt r).1 := by
  refine hr.endLease hn (fun i hi r => .trans (.hset hi) (.zadd hi)) fun h hj ha => ⟨?_, ?_⟩
  · exact ha.hset.zadd (by simp [Redis.place, JobHash.place, JobHash.throttle])
  · simp [Redis.Fenced, JobHash.throttle]

theorem heartbeatLua (hr : Placement r) : Placement (heartbeatLua j leaseToken ttl now r).1 := by
  apply heartbeatLua_rule (Q := fun x => Placement x.1) <;> dsimp only
  case rejected => exact hr
  case accepted =>
    intro h hj ht hs
    have hp : r.place j = some (.zset .activeLeases) := by simp [Redis.place, hj, JobHash.place, hs]
    have hp' : (r.hset j (·.renew ttl now)).place j = some (.zset .activeLeases) := by
      simp [Redis.place, hj, JobHash.place, JobHash.renew, hs]
    refine hr.update (fun i hi => renew_unchanged hi) ?_ ?_
    · exact ((hr.placed j).hset (hp'.trans hp.symm)).zadd hp'
    · simp [Redis.Fenced, renew, JobHash.renew, hj, hs]

-- Nothing is dropped as the jobs in a ready list are queued.
theorem dequeueLua {workerID : WorkerID} {queues : List QueueName} (hr : Placement r) :
    Placement (b.dequeueLua workerID ttl now (readyKeysForQueues queues) r).1 := by
  apply dequeueLua_rule (P := Placement) (Q := fun r _ => Placement r)
  case drop =>
    intro r k j rest hr hk hl hs
    have ⟨q, p, hk⟩ := mem_readyKeysForQueues hk
    have hp := (hr.placed j).of_mem (by rw [hl]; exact List.mem_cons_self)
    have ⟨h, hj, hp⟩ := Option.bind_eq_some_iff.mp hp
    have hs := hs h hj
    subst hk
    cases hc : h.state <;> simp [hc, JobHash.place, JobState.isRunnable] at hp hs
  case lease =>
    intro r k j rest h hr hk hl hj hs
    refine hr.update (fun i hi => .trans (.lpop hl hi) (lease_unchanged hi)) ?_ ?_
    · exact ((hr.placed j).lpop hl).hset.zadd (by simp [Redis.place, JobHash.place, JobHash.lease])
    · simp [Redis.Fenced, lease, JobHash.lease]
  case none => exact fun _ => id
  case hr   => exact hr

theorem activateDueLua {limit : Int} (hr : Placement r) :
    Placement (activateDueLua limit now r).1 := by
  apply activateAll_rule (P := Placement) SortedSet.rangeByScore_nodup
  case hr => exact hr
  case hs =>
    intro r j _ _ hs hr
    have hp := (hr.placed j).of_score? hs
    have ⟨h, hj, _⟩ := Option.bind_eq_some_iff.mp hp
    have ha := ((hr.placed j).zrem hp).hset (f := (·.activate now))
    refine hr.update (fun i => activate_unchanged) ?_ ?_
    · simpa [activate, hj] using ha.lpush (by simp [Redis.place, JobHash.place, JobHash.activate, hj])
    · simp [Redis.Fenced, activate, hj, JobHash.activate]

-- A job is lost if the script aborts.
theorem recoverExpiredLua {limit : Int} (hr : Placement r)
    (hn : ∀ j ∈ (r.zsets .activeLeases).rangeByScore (.ofInt now) limit, ∀ h, r.jobs j = some h →
      h.cancelRequested = false → h.attempts < h.maxAttempts.getD 1 → b.retryAt now h.attempts ≠ .nan) :
    Placement (b.recoverExpiredLua limit now r).1 := by
  apply recoverAll_rule (P := Placement) SortedSet.rangeByScore_nodup
  case hr => exact hr
  case absent =>
    intro r' j _ _ hj hr
    refine hr.update (fun i => .zrem) ?_ ?_
    · intro p
      have hp := hr.placed j p
      simp_all [Redis.zrem_occurrences, Redis.place]
    · simp [Redis.Fenced, hj]
  case present =>
    intro r' j h hm hu hs hj hr
    have ha := ((hr.placed j).zrem <| (hr.placed j).of_score? hs)
    refine hr.update (fun i hi => .trans (.zrem hi) (recover_unchanged hi)) ?_ ?_
    · apply recover_rule (Q := fun x => x.1.Placed j) <;> dsimp only
      case canceled =>
        intro _
        exact ha.hset.placed (by simp [Redis.place, JobHash.place, JobHash.cancelExpired])
      case retrying =>
        intro _ _ _ _
        exact ha.hset.zadd (by simp [Redis.place, JobHash.place, JobHash.retryExpired])
      case aborted =>
        exact fun hc ha he => absurd he <| hn j hm h (hu.jobs ▸ hj) hc ha
      case failed =>
        intro _ _
        exact ha.hset.lpush (by simp [Redis.place, JobHash.place, JobHash.failExpired, hj])
    · apply recover_rule (Q := fun x => x.1.Fenced j)
      all_goals
        intros
        simp [Redis.Fenced, JobHash.cancelExpired, JobHash.retryExpired, JobHash.failExpired]

theorem enqueue {now : Time} (hr : Placement r) (hp : r.place job.id = none)
    (ht : job.leaseToken = "")
    (hs : job.state = .queued ∧ job.runAt ≤ now ∨ job.state = .scheduled ∨ job.state = .blocked) :
    Placement (enqueue job now r) := by
  have ha := ((hr.placed job.id).absent hp).hset (f := fun _ => jobHash job)
  refine hr.update (fun i => enqueue_unchanged) ?_ ?_
  · match hs with
    | .inl ⟨hs, hn⟩ =>
      simpa [RedisBroker.enqueue, hs, not_lt.mpr hn] using
        ha.lpush (by simp [Redis.place, JobHash.place, jobHash, hs])
    | .inr (.inl hs) =>
      simpa [RedisBroker.enqueue, hs] using
        ha.zadd (by simp [Redis.place, JobHash.place, jobHash, hs])
    | .inr (.inr hs) =>
      simpa [RedisBroker.enqueue, hs] using
        ha.placed (by simp [Redis.place, JobHash.place, jobHash, hs])
  · simp [Redis.Fenced, enqueue_jobs, jobHash, ht]

-- The second half of `Cancel` removes a job from all the places in which it can be.
theorem place_of_isCancellable (hs : isCancellable h.state) :
    h.place = some (.list (.ready h.queue h.priority)) ∨ h.place = some (.zset .delayed) ∨
    h.place = some (.list (.dlq h.queue)) ∨ h.place = none := by
  cases hc : h.state <;> simp [JobHash.place, isCancellable, hc] at hs ⊢

-- What has been loaded is still stored when the second half of `Cancel` is executed.
theorem cancelLoaded (hr : Placement r) (hj : r.jobs j = some h) :
    Placement (cancelLoaded j (jobFromHash h) now r) := by
  have hp : r.place j = h.place := by simp [Redis.place, hj]
  refine hr.update (fun i => cancelLoaded_unchanged) ?_ ?_
  · by_cases hs : isCancellable h.state
    case neg =>
      have hp : (r.hset j (·.requestCancel now)).place j = r.place j := by
        simp [Redis.place, hj, JobHash.place, JobHash.requestCancel]
      simpa [RedisBroker.cancelLoaded, jobFromHash, hs] using (hr.placed j).hset hp
    case pos =>
      have ha : (RedisBroker.cancelLoaded j (jobFromHash h) now r).Absent j := by
        intro p
        simp only [RedisBroker.cancelLoaded, jobFromHash, hs, if_true, Redis.hset_occurrences,
          Redis.lrem_occurrences, Redis.zrem_occurrences, hr.placed j p, hp, and_true]
        have hc := place_of_isCancellable hs
        grind
      exact ha.placed (by simp [Redis.place, cancelLoaded_jobs, jobFromHash, hs, JobHash.cancel, JobHash.place])
  · have ht := hr.fenced j h hj
    by_cases hs : isCancellable h.state
    case neg => simpa [Redis.Fenced, cancelLoaded_jobs, jobFromHash, hs, hj, JobHash.requestCancel] using ht
    case pos =>
      have hn : h.state ≠ .active := by
        intro he
        simp [isCancellable, he] at hs
      simpa [Redis.Fenced, cancelLoaded_jobs, jobFromHash, hs, hj, JobHash.requestCancel, JobHash.cancel]
        using fun h => hn (ht h)

end Placement

end JobPlatform
