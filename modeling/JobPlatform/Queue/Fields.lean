import JobPlatform.Queue.Effects

namespace JobPlatform

variable {β : Type}

-- Some of the fields of a hash, which are not touched when a lease is renewed or ends.
structure JobHash.Lasting (g : JobHash → β) : Prop where
  renew             : ∀ h leaseTTL now, g (h.renew leaseTTL now) = g h
  complete          : ∀ h job finishedAt result, g (h.complete job finishedAt result) = g h
  retryAfterFailure : ∀ h errMessage retryAt failedAt, g (h.retryAfterFailure errMessage retryAt failedAt) = g h
  fail              : ∀ h errMessage failedAt, g (h.fail errMessage failedAt) = g h
  throttle          : ∀ h reason retryAt now, g (h.throttle reason retryAt now) = g h
  activate          : ∀ h now, g (h.activate now) = g h
  cancelExpired     : ∀ h now, g (h.cancelExpired now) = g h
  retryExpired      : ∀ h retryAt now, g (h.retryExpired retryAt now) = g h
  failExpired       : ∀ h now, g (h.failExpired now) = g h
  schedule          : ∀ h, g h.schedule = g h
  requestCancel     : ∀ h now, g (h.requestCancel now) = g h
  cancel            : ∀ h now, g (h.cancel now) = g h

namespace Redis

def fields (g : JobHash → β) (r : Redis) (j : JobID) : Option β :=
  (r.jobs j).map g

variable {g : JobHash → β} {r : Redis} {i j : JobID} {f : JobHash → JobHash} {k : ListKey} {z : ZSetKey} {s : Score}
         {ids : List JobID} {x : β}

@[simp]
theorem lset_fields : (r.lset k ids).fields g = r.fields g :=
  rfl

@[simp]
theorem lpush_fields : (r.lpush k i).fields g = r.fields g :=
  rfl

@[simp]
theorem lrem_fields : (r.lrem k i).fields g = r.fields g :=
  rfl

@[simp]
theorem zadd_fields : (r.zadd z i s).fields g = r.fields g :=
  rfl

@[simp]
theorem zrem_fields : (r.zrem z i).fields g = r.fields g :=
  rfl

theorem fields_eq_some : r.fields g j = some x ↔ ∃ h, r.jobs j = some h ∧ g h = x :=
  Option.map_eq_some_iff

theorem hset_fields : (r.hset i f).fields g = Function.update (r.fields g) i (some (g (f ((r.jobs i).getD .empty)))) := by
  funext j
  rw [fields, hset_jobs, Function.update_apply]
  split
  case isTrue  => rfl
  case isFalse => rfl

-- Writing other fields of a hash that is there keeps these.
theorem hset_fields_of_isSome (hf : ∀ h, g (f h) = g h) (hi : (r.jobs i).isSome) :
    (r.hset i f).fields g = r.fields g := by
  have ⟨h, hi⟩ := Option.isSome_iff_exists.mp hi
  rw [hset_fields, hf, hi]
  exact Function.update_eq_self_iff.mpr (by simp [fields, hi])

end Redis

namespace RedisBroker

variable {g : JobHash → β} {b : RedisBroker} {workerID : WorkerID} {ttl now : Int} {keys : List ListKey} {r : Redis}
         {ids : List JobID} {i j : JobID} {leaseToken : Token} {body : Redis → Redis} {job : Job} {c : BrokerCall}

-- At most one job is leased, which changes its fields by `f`.
def LeasesFields (g : JobHash → β) (f : β → β) (r r' : Redis) : Option (JobID × Token) → Prop
  | none        => r'.fields g = r.fields g
  | some (i, _) => ∃ x, r.fields g i = some x ∧ r'.fields g = Function.update (r.fields g) i (some (f x))

theorem dequeueLua_fields {f : β → β}
    (hf : ∀ h workerID leaseToken ttl now, g (h.lease workerID leaseToken ttl now) = f (g h)) :
    LeasesFields g f r (b.dequeueLua workerID ttl now keys r).1 (b.dequeueLua workerID ttl now keys r).2 := by
  apply dequeueLua_rule (P := (·.fields g = r.fields g)) (Q := LeasesFields g f r)
  case drop  => exact fun _ _ _ _ hr _ _ _ => hr
  case none  => exact fun _ hr => hr
  case hr    => rfl
  case lease =>
    intro r' k i rest h hr _ _ hj _
    refine ⟨g h, by rw [← hr]; exact Redis.fields_eq_some.mpr ⟨h, hj, rfl⟩, ?_⟩
    rw [lease, Redis.zadd_fields, Redis.hset_fields, Redis.lset_fields, Redis.lset_jobs, hj, hr, hf]
    rfl

section

variable (hg : JobHash.Lasting g)
include hg

theorem heartbeatLua_fields : (heartbeatLua i leaseToken ttl now r).1.fields g = r.fields g := by
  apply heartbeatLua_rule (Q := fun x => x.1.fields g = r.fields g)
  case rejected => rfl
  case accepted =>
    intro h hj _ _
    exact Redis.hset_fields_of_isSome (f := (·.renew ttl now)) (fun h => hg.renew h ttl now) (Option.isSome_of_eq_some hj)

omit hg in
theorem endLease_fields (hb : ∀ r : Redis, (r.jobs i).isSome → (body r).fields g = r.fields g) :
    (endLease i leaseToken body r).1.fields g = r.fields g := by
  apply endLease_rule (Q := fun x => x.1.fields g = r.fields g)
  case rejected => rfl
  case accepted => exact fun h hj _ => hb (r.zrem .activeLeases i) (Option.isSome_of_eq_some hj)

theorem completeLua_fields {result : String} :
    (completeLua job leaseToken now result r).1.fields g = r.fields g :=
  endLease_fields fun _ => Redis.hset_fields_of_isSome fun h => hg.complete h job now result

theorem failLua_fields {errMessage : String} {retryAt : Option Int} :
    (failLua job leaseToken errMessage retryAt now r).1.fields g = r.fields g := by
  refine endLease_fields fun r hj => ?_
  cases retryAt
  case none   => exact Redis.hset_fields_of_isSome (f := (·.fail errMessage now)) (fun h => hg.fail h ..) hj
  case some t =>
    exact Redis.hset_fields_of_isSome (f := (·.retryAfterFailure errMessage t now))
      (fun h => hg.retryAfterFailure h ..) hj

theorem throttleLua_fields {reason : String} {retryAt : Int} :
    (throttleLua job leaseToken now reason retryAt r).1.fields g = r.fields g :=
  endLease_fields fun _ => Redis.hset_fields_of_isSome (f := (·.throttle reason retryAt now)) fun h => hg.throttle h ..

theorem activate_fields : (activate now i r).1.fields g = r.fields g := by
  unfold activate
  split
  case h_1      => rfl
  case h_2 h hj =>
    exact Redis.hset_fields_of_isSome (r := r.zrem .delayed i) (f := (·.activate now)) (fun h => hg.activate h now)
      (Option.isSome_of_eq_some hj)

theorem activateAll_fields : (activateAll now ids r).1.fields g = r.fields g := by
  induction ids generalizing r
  case nil             => rfl
  case cons id rest hi =>
    unfold activateAll
    split
    case isTrue  => exact hi.trans (activate_fields hg)
    case isFalse => exact hi

theorem recover_fields {h : JobHash} (hj : (r.jobs i).isSome) : (b.recover now i h r).1.fields g = r.fields g := by
  have keep {f : JobHash → JobHash} (hf : ∀ h, g (f h) = g h) : (r.hset i f).fields g = r.fields g :=
    Redis.hset_fields_of_isSome hf hj
  apply recover_rule (Q := fun x => x.1.fields g = r.fields g)
  case canceled => exact fun _ => keep (f := (·.cancelExpired now)) fun h => hg.cancelExpired h now
  case retrying => exact fun _ _ _ _ => keep (f := (·.retryExpired (storedMillis _) now)) fun h => hg.retryExpired h ..
  case aborted  => exact fun _ _ _ => keep (f := (·.retryExpired 0 now)) fun h => hg.retryExpired h ..
  case failed   => exact fun _ _ => keep (f := (·.failExpired now)) fun h => hg.failExpired h now

theorem recoverAll_fields (hn : ids.Nodup) : (b.recoverAll now ids r).1.fields g = r.fields g := by
  refine recoverAll_rule (P := (·.fields g = r.fields g)) hn ?_ ?_ rfl
  case refine_1 => exact fun _ _ _ _ _ hr => hr
  case refine_2 =>
    intro r' i h _ _ _ hj hr
    exact (recover_fields (r := r'.zrem .activeLeases i) hg (Option.isSome_of_eq_some hj)).trans hr

-- If the job has no hash, a new one is written.
theorem cancelLoaded_fields {now : Int} : (cancelLoaded i job now r).fields g =
    Function.update (r.fields g) i (some (g ((r.jobs i).getD .empty))) := by
  have hr : (r.hset i (·.requestCancel now)).fields g =
      Function.update (r.fields g) i (some (g ((r.jobs i).getD .empty))) := by
    rw [Redis.hset_fields, hg.requestCancel]
  unfold cancelLoaded
  dsimp only
  split
  case isFalse => exact hr
  case isTrue  =>
    refine Eq.trans ?_ hr
    exact Redis.hset_fields_of_isSome (f := (·.cancel now)) (fun h => hg.cancel h now) (by simp)

theorem cancelLoaded_fields_of_isSome {now : Int} (hj : (r.jobs i).isSome) :
    (cancelLoaded i job now r).fields g = r.fields g := by
  have ⟨h, hj⟩ := Option.isSome_iff_exists.mp hj
  rw [cancelLoaded_fields hg, hj]
  exact Function.update_eq_self_iff.mpr (by simp [Redis.fields, hj])

theorem retry_fields {now : Time} : (retry job now r).fields g =
    Function.update (r.fields g) job.id (some (g (((r.jobs job.id).getD .empty).retry job now.unixMilli))) := by
  have hr : (r.hset job.id (·.retry job now.unixMilli)).fields g = Function.update (r.fields g) job.id
      (some (g (((r.jobs job.id).getD .empty).retry job now.unixMilli))) := Redis.hset_fields
  unfold retry
  dsimp only
  rw [Redis.lrem_fields]
  split
  case isFalse => exact hr
  case isTrue  =>
    have hs : ((r.hset job.id (·.retry job now.unixMilli)).hset job.id (·.schedule)).fields g =
        (r.hset job.id (·.retry job now.unixMilli)).fields g := Redis.hset_fields_of_isSome hg.schedule (by simp)
    exact hs.trans hr

end

theorem enqueue_fields {now : Time} : (enqueue job now r).fields g =
    Function.update (r.fields g) job.id (some (g (jobHash job))) := by
  have hj : (enqueue job now r).fields g = (r.hset job.id fun _ => jobHash job).fields g := by
    unfold Redis.fields
    rw [enqueue_jobs]
  exact hj.trans Redis.hset_fields

-- All other calls leave the fields as they are.
def Lasts : BrokerCall → Prop
  | .enqueue ..      => False
  | .retry ..        => False
  | .dequeue ..      => False
  | .cancelLoaded .. => False
  | _                => True

theorem exec_fields (hg : JobHash.Lasting g) (hc : Lasts c) : (b.exec r c).1.fields g = r.fields g := by
  cases c
  case loadJob          => rfl
  case heartbeat        => exact heartbeatLua_fields hg
  case complete         => exact completeLua_fields hg
  case fail             => exact failLua_fields hg
  case requeueThrottled => exact throttleLua_fields hg
  case activateDue      => exact activateAll_fields hg
  case recoverExpired   => exact recoverAll_fields hg SortedSet.rangeByScore_nodup
  case enqueue          => exact hc.elim
  case retry            => exact hc.elim
  case dequeue          => exact hc.elim
  case cancelLoaded     => exact hc.elim

end RedisBroker
end JobPlatform
