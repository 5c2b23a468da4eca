import JobPlatform.Library.Filing
import JobPlatform.System.Agreement

namespace JobPlatform

-- The identifiers of both stores belong to the same jobs, which are stored under them.
structure Paired (w : World) : Prop where
  keyed : ∀ j s, w.redis.summaries j = some s → s.id = j
  rows  : ∀ j, (w.postgres.summaries j).map (·.id) = (w.redis.summaries j).map (·.id)

def Redis.dlq (r : Redis) (queueName : QueueName) : List JobID :=
  r.lists (.dlq queueName)

-- The queue in which a job is a dead letter according to the database.
def Postgres.buried (p : Postgres) (j : JobID) : Option QueueName :=
  (p.deadLetters j).map (·.queue)

-- A job is a dead letter in the broker exactly if it is one in the database, and in the same queue.
def Mirrored (w : World) : Prop :=
  Filed w.redis.dlq w.postgres.buried

-- No job has appeared, and the dead letters are the same.
structure Calm (w w' : World) : Prop where
  hashes : ∀ k, (w'.redis.summaries k).map (·.id) = (w.redis.summaries k).map (·.id)
  rows   : ∀ k, (w'.postgres.summaries k).map (·.id) = (w.postgres.summaries k).map (·.id)
  lists  : w'.redis.dlq = w.redis.dlq
  dead   : w'.postgres.deadLetters = w.postgres.deadLetters

instance : Std.Refl Calm where
  refl _ := ⟨fun _ => rfl, fun _ => rfl, rfl, rfl⟩

instance : IsTrans World Calm where
  trans _ _ _ h h' := {
    hashes k := (h'.hashes k).trans (h.hashes k)
    rows k   := (h'.rows k).trans (h.rows k)
    lists    := h'.lists.trans h.lists
    dead     := h'.dead.trans h.dead
  }

variable {w w' : World} {c : Call} {j k : JobID} {job : Job}

theorem Paired.calm (h : Paired w) (hw : Calm w w') : Paired w' where
  rows k       := by rw [hw.rows, hw.hashes, h.rows]
  keyed k s hs := by
    have hk := hw.hashes k
    rw [hs] at hk
    have ⟨s', hs', he⟩ := Option.map_eq_some_iff.mp hk.symm
    exact he.symm.trans <| h.keyed k s' hs'

theorem Calm.buried (h : Calm w w') : w'.postgres.buried = w.postgres.buried :=
  funext fun _ => congrArg (Option.map _) <| congrFun h.dead _

theorem Mirrored.calm (h : Mirrored w) (hw : Calm w w') : Mirrored w' := by
  rw [Mirrored, hw.lists, hw.buried]
  exact h

-- The calls which concern no dead letter, and by which no job appears.
def Call.isCalm : Call → Bool
  | broker (.dequeue ..)                => true
  | broker (.complete ..)               => true
  | broker (.fail _ _ _ retryAt _)      => retryAt.isSome
  | broker (.requeueThrottled ..)       => true
  | broker (.activateDue ..)            => true
  | repo (.markJobQueued ..)            => true
  | repo (.markJobActive ..)            => true
  | repo (.markJobCompleted ..)         => true
  | repo (.markJobRetrying ..)          => true
  | repo (.markJobFailed ..)            => true
  | repo (.markJobCanceled ..)          => true
  | repo (.markJobThrottled ..)         => true
  | c                                   => c.isTame

namespace RedisBroker

variable {b : RedisBroker} {r : Redis} {queueName : QueueName} {leaseToken : Token} {now : Int}

theorem dequeueLua_dlq {workerID : WorkerID} {ttl : Int} {queues : List QueueName} :
    (b.dequeueLua workerID ttl now (readyKeysForQueues queues) r).1.lists (.dlq queueName) = r.lists (.dlq queueName) := by
  have pop {r' : Redis} {k : ListKey} {ids : List JobID} (hk : k ∈ readyKeysForQueues queues) :
      (r'.lset k ids).lists (.dlq queueName) = r'.lists (.dlq queueName) := by
    have ⟨_, _, hk⟩ := mem_readyKeysForQueues hk
    rw [hk, Redis.lset_lists]
    rfl
  apply dequeueLua_rule (P := fun r' => r'.lists (.dlq queueName) = r.lists (.dlq queueName))
    (Q := fun r' _ => r'.lists (.dlq queueName) = r.lists (.dlq queueName))
  case drop  => exact fun r' k j rest hr hk _ _ => (pop hk).trans hr
  case lease => exact fun r' k j rest h hr hk _ _ _ => (pop hk).trans hr
  case none  => exact fun r' hr => hr
  case hr    => rfl

theorem activate_dlq : (activate now j r).1.lists (.dlq queueName) = r.lists (.dlq queueName) := by
  unfold activate
  split
  · rfl
  · exact Redis.lpush_lists

theorem activateAll_dlq {ids : List JobID} :
    (activateAll now ids r).1.lists (.dlq queueName) = r.lists (.dlq queueName) := by
  induction ids generalizing r
  case nil             => rfl
  case cons id rest hi =>
    unfold activateAll
    split
    · exact hi.trans activate_dlq
    · exact hi

theorem endLease_dlq {body : Redis → Redis}
    (hb : ∀ r : Redis, (body r).lists (.dlq queueName) = r.lists (.dlq queueName)) :
    (endLease j leaseToken body r).1.lists (.dlq queueName) = r.lists (.dlq queueName) := by
  apply endLease_rule (Q := fun x => x.1.lists (.dlq queueName) = r.lists (.dlq queueName))
  case rejected => rfl
  case accepted => exact fun _ _ _ => hb _

theorem completeLua_dlq {result : String} :
    (completeLua job leaseToken now result r).1.lists (.dlq queueName) = r.lists (.dlq queueName) :=
  endLease_dlq fun _ => rfl

theorem failLua_some_dlq {errMessage : String} {retryAt : Int} :
    (failLua job leaseToken errMessage (some retryAt) now r).1.lists (.dlq queueName) = r.lists (.dlq queueName) :=
  endLease_dlq fun _ => rfl

theorem throttleLua_dlq {reason : String} {retryAt : Int} :
    (throttleLua job leaseToken now reason retryAt r).1.lists (.dlq queueName) = r.lists (.dlq queueName) :=
  endLease_dlq fun _ => rfl

theorem heartbeatLua_dlq {ttl : Int} :
    (heartbeatLua j leaseToken ttl now r).1.lists (.dlq queueName) = r.lists (.dlq queueName) := by
  apply heartbeatLua_rule (Q := fun x => x.1.lists (.dlq queueName) = r.lists (.dlq queueName))
  case rejected => rfl
  case accepted => exact fun _ _ _ _ => rfl

end RedisBroker

theorem map_id_ite {o : Option Summary} {p : Prop} [Decidable p] {g : Summary → Summary} (hg : ∀ s, (g s).id = s.id) :
    (if p then o.map g else o).map (·.id) = o.map (·.id) := by
  split
  · simp [Function.comp_def, hg]
  · rfl

namespace Calm

variable {redis : Redis} {postgres : Postgres} {calls : Nat}

theorem of_calls : Calm w { w with calls } :=
  ⟨fun _ => rfl, fun _ => rfl, rfl, rfl⟩

theorem of_redis (hashes : ∀ k, (redis.summaries k).map (·.id) = (w.redis.summaries k).map (·.id))
    (lists : ∀ queueName, redis.lists (.dlq queueName) = w.redis.lists (.dlq queueName)) :
    Calm w { w with calls, redis } :=
  ⟨hashes, fun _ => rfl, funext lists, rfl⟩

theorem of_postgres (rows : ∀ k, (postgres.summaries k).map (·.id) = (w.postgres.summaries k).map (·.id))
    (dead : postgres.deadLetters = w.postgres.deadLetters) : Calm w { w with calls, postgres } :=
  ⟨fun _ => rfl, rows, rfl, dead⟩

end Calm

theorem Postgres.upsertJobAttempt_deadLetters {p : Postgres} {attempt : JobAttempt} :
    (p.upsertJobAttempt attempt).1.deadLetters = p.deadLetters := by
  unfold upsertJobAttempt
  split <;> rfl

-- The dead letter of a job that exists is inserted or replaced.
theorem Postgres.upsertDeadLetter_buried {p : Postgres} {deadLetter : DeadLetter}
    (h : (p.summaries deadLetter.jobID).isSome) :
    (p.upsertDeadLetter deadLetter).1.buried = Function.update p.buried deadLetter.jobID (some deadLetter.queue) := by
  rw [summaries, Option.isSome_map] at h
  obtain ⟨row, hr⟩ := Option.isSome_iff_exists.mp h
  funext k
  simp only [buried, upsertDeadLetter, hr, Option.isNone_some, Bool.false_eq_true, if_false, Function.update_apply]
  split
  case isTrue  => rfl
  case isFalse => rfl

theorem World.exec_calm (h : c.isCalm) : Calm w (w.exec c).1 := by
  cases c
  case broker c =>
    cases c
    case dequeue workerID queues leaseTTL now =>
      have hl := RedisBroker.dequeueLua_leases (b := w.broker) (r := w.redis) workerID leaseTTL.milliseconds now.unixMilli
        (readyKeysForQueues queues)
      refine .of_redis (fun k => ?_) fun q => RedisBroker.dequeueLua_dlq
      dsimp only [RedisBroker.exec, Prod.map_fst, id]
      generalize w.broker.dequeueLua workerID leaseTTL.milliseconds now.unixMilli (readyKeysForQueues queues) w.redis = x
        at hl ⊢
      match x with
      | (redis, none)        => exact congrArg (Option.map _) (congrFun hl k)
      | (redis, some (i, _)) => exact (congrArg _ <| hl.right k).trans <| map_id_ite fun _ => rfl
    case complete =>
      exact .of_redis (fun k => (congrArg _ RedisBroker.completeLua_summaries).trans <| map_id_ite fun _ => rfl)
        fun _ => RedisBroker.completeLua_dlq
    case fail job leaseToken errMessage retryAt failedAt =>
      cases retryAt
      case none   => cases h
      case some t =>
        exact .of_redis (fun k => (congrArg _ RedisBroker.failLua_some_summaries).trans <| map_id_ite fun _ => rfl)
          fun _ => RedisBroker.failLua_some_dlq
    case requeueThrottled =>
      exact .of_redis (fun k => (congrArg _ RedisBroker.throttleLua_summaries).trans <| map_id_ite fun _ => rfl)
        fun _ => RedisBroker.throttleLua_dlq
    case activateDue =>
      exact .of_redis (fun k => (congrArg _ (RedisBroker.activateAll_summaries ..).right).trans <| map_id_ite fun _ => rfl)
        fun q => RedisBroker.activateAll_dlq
    case heartbeat =>
      exact .of_redis (fun k => congrArg _ (congrFun RedisBroker.heartbeatLua_summaries k)) fun q =>
        RedisBroker.heartbeatLua_dlq
    case loadJob => exact .of_calls
    all_goals cases h
  case repo c =>
    have mark {postgres : Postgres} {g : Summary → Summary} {j : JobID} (hd : postgres.deadLetters = w.postgres.deadLetters)
        (hm : ∀ k, postgres.summaries k = if k = j then (w.postgres.summaries k).map g else w.postgres.summaries k)
        (hg : ∀ s, (g s).id = s.id) :
        Calm w { w with calls := w.calls + 1, postgres } :=
      .of_postgres (fun k => (congrArg _ <| hm k).trans <| map_id_ite hg) hd
    cases c <;> try cases h
    case markJobQueued    => exact mark rfl (fun _ => Postgres.markJobQueued_summaries) fun _ => rfl
    case markJobActive    => exact mark rfl (fun _ => Postgres.markJobActive_summaries) fun _ => rfl
    case markJobCompleted => exact mark rfl (fun _ => Postgres.markJobCompleted_summaries) fun _ => rfl
    case markJobRetrying  => exact mark rfl (fun _ => Postgres.markJobRetrying_summaries) fun _ => rfl
    case markJobFailed    => exact mark rfl (fun _ => Postgres.markJobFailed_summaries) fun _ => rfl
    case markJobCanceled  => exact mark rfl (fun _ => Postgres.markJobCanceled_summaries) fun _ => rfl
    case markJobThrottled => exact mark rfl (fun _ => Postgres.markJobThrottled_summaries) fun _ => rfl
    case updateJobHeartbeat => exact .of_postgres (fun k => congrArg _ (congrFun Postgres.updateJobHeartbeat_summaries k)) rfl
    case upsertJobAttempt =>
      exact .of_postgres (fun k => congrArg _ (congrFun Postgres.upsertJobAttempt_summaries k))
        Postgres.upsertJobAttempt_deadLetters
    case updateIdempotencyOutcome =>
      exact .of_postgres (fun k => congrArg _ (congrFun Postgres.updateIdempotencyOutcome_summaries k)) rfl
    all_goals exact .of_calls
  case heartbeats => cases h
  case now        => exact .of_calls
  case limiter    => exact ⟨fun _ => rfl, fun _ => rfl, rfl, rfl⟩

theorem Call.isCalm_of_isTame (c : Call) (h : c.isTame) : c.isCalm := by
  cases c
  case broker c => cases c <;> first | rfl | cases h
  case repo c   => cases c <;> first | rfl | cases h
  all_goals first | rfl | cases h

instance : Tolerates Calm where
  tame {c} _ h := World.exec_calm <| c.isCalm_of_isTame h

theorem calm_call {α : Type} {k : c.Resp → Program α} (h : c.isCalm) (hk : ∀ r, (k r).Quiet unguarded Calm) :
    (Prog.call c k).Quiet unguarded Calm := by
  refine ⟨?_, fun _ => World.exec_calm h, hk⟩
  cases c <;> first | rfl | cases h

namespace Paired

theorem hash_id (h : Paired w) (hj : (w.postgres.summaries j).isSome) : (w.redis.summaries j).map (·.id) = some j := by
  have ⟨s, hs⟩ := Option.isSome_iff_exists.mp hj
  have hr := h.rows j
  rw [hs] at hr
  have ⟨s', hs', he⟩ := Option.map_eq_some_iff.mp hr.symm
  rw [hs', Option.map_some, h.keyed j s' hs']

theorem keyed_row {s : Summary} (h : Paired w) (hs : w.postgres.summaries j = some s) : s.id = j := by
  have hr := (h.rows j).trans <| h.hash_id (hs ▸ rfl)
  rw [hs] at hr
  exact Option.some.inj hr

theorem row_id (h : Paired w) (hj : w.postgres.jobs j = some job) : job.id = j :=
  h.keyed_row (s := job.summary) <| by simp [Postgres.summaries, hj]

theorem isSome (h : Paired w) : (w.postgres.summaries j).isSome = (w.redis.summaries j).isSome := by
  simpa using congrArg Option.isSome (h.rows j)

end Paired

theorem Calm.isSome (h : Calm w w') : (w'.postgres.summaries k).isSome = (w.postgres.summaries k).isSome := by
  simpa using congrArg Option.isSome (h.rows k)

theorem RedisBroker.enqueue_dlq {r : Redis} {now : Time} {queueName : QueueName} :
    (enqueue job now r).lists (.dlq queueName) = r.lists (.dlq queueName) := by
  unfold enqueue
  dsimp only
  split
  · rfl
  · split
    · rfl
    · split
      · exact Redis.lpush_lists
      · rfl

-- A job which both stores know is put back into the broker.
theorem World.exec_enqueue_calm {now : Time} (h : Paired w) (hj : (w.postgres.summaries job.id).isSome) :
    Calm w (w.exec (.broker (.enqueue job now))).1 := by
  refine .of_redis (fun k => (congrArg _ RedisBroker.enqueue_summaries).trans ?_) fun _ => RedisBroker.enqueue_dlq
  split
  case isTrue hk  => exact hk ▸ (h.hash_id hj).symm
  case isFalse    => rfl

end JobPlatform
