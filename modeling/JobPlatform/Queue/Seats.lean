import JobPlatform.Queue.Effects

namespace JobPlatform

-- A list of dead letters is only a record of jobs.
def Place.Live : Place → Prop
  | .list (.dlq _) => False
  | _              => True

-- The places which a job may have in the given state. Only a leased job holds a token.
def JobHash.Suits (h : JobHash) : Option Place → Prop
  | none                        => h.leaseToken = "" ∧ h.state ≠ .active
  | some (.list (.ready _ _))   => h.leaseToken = "" ∧ (h.state = .queued ∨ h.state = .canceled)
  | some (.list (.dlq _))       => False
  | some (.zset .delayed)       =>
    h.leaseToken = "" ∧ h.state ∈ [.queued, .scheduled, .retrying, .throttled, .canceled]
  | some (.zset .activeLeases)  => h.state = .active ∨ h.state = .canceled

namespace Redis

-- The only live place of the job is the given one, if any.
def Only (r : Redis) (j : JobID) (o : Option Place) : Prop :=
  ∀ p, p.Live → r.occurrences j p = if o = some p then 1 else 0

-- The job is in a place that suits it, and the entry of an active job says when its lease expires.
structure Seat (r : Redis) (j : JobID) (o : Option Place) : Prop where
  only  : r.Only j o
  suits : ∀ h, r.jobs j = some h → h.Suits o
  known : r.jobs j = none → o = none
  lease : ∀ h, r.jobs j = some h → h.state = .active →
    ∃ t, h.leaseExpiresAt = some t ∧ (r.zsets .activeLeases).score? j = some (.ofInt t)

-- Each job is in one place at most.
def Seated (r : Redis) : Prop :=
  ∀ j, ∃ o, r.Seat j o

variable {r r' : Redis} {i j : JobID} {o : Option Place} {f : JobHash → JobHash} {k : ListKey} {z : ZSetKey}
         {s : Score} {h : JobHash} {ids : List JobID} {q : QueueName} {n : Int}

theorem Only.of_unchanged (hu : r.Unchanged j r') (h : r.Only j o) : r'.Only j o := by
  unfold Only
  rw [hu.occurrences]
  exact h

theorem Only.lpop (h : r.Only j o) (hl : r.lists (.ready q n) = j :: ids) :
    o = some (.list (.ready q n)) ∧ (r.lset (.ready q n) ids).Only j none := by
  have ho (p : Place) := lpop_occurrences (j := j) (p := p) hl
  have hk := ho (.list (.ready q n))
  simp only [h (.list (.ready q n)) trivial, and_self, if_true] at hk
  have he : o = some (.list (.ready q n)) := by
    by_contra hne
    simp [hne] at hk
  refine ⟨he, fun p hp => ?_⟩
  have hp' := ho p
  rw [h p hp, he] at hp'
  by_cases hk : p = .list (.ready q n)
  case pos => simpa [hk] using hp'
  case neg => simpa [hk, eq_comm] using hp'

theorem Only.lpush_dlq (h : r.Only j o) : (r.lpush (.dlq q) i).Only j o := by
  intro p hp
  have hd : p ≠ .list (.dlq q) := by
    intro he
    subst he
    exact hp
  simpa [lpush_occurrences, hd] using h p hp

theorem Only.lrem_dlq (h : r.Only j o) : (r.lrem (.dlq q) i).Only j o := by
  intro p hp
  have hd : p ≠ .list (.dlq q) := by
    intro he
    subst he
    exact hp
  simpa [lrem_occurrences, hd] using h p hp

theorem Only.lpush (h : r.Only j none) : (r.lpush k j).Only j (some (.list k)) := by
  intro p hp
  simp [lpush_occurrences, h p hp, eq_comm]

theorem Only.zadd (h : r.Only j none) : (r.zadd z j s).Only j (some (.zset z)) := by
  intro p hp
  simp [zadd_occurrences, h p hp, eq_comm]

theorem Only.zadd_self (h : r.Only j (some (.zset z))) : (r.zadd z j s).Only j (some (.zset z)) := by
  intro p hp
  rw [zadd_occurrences, h p hp]
  by_cases he : p = .zset z <;> simp [he, eq_comm]

-- The job is taken out of a place, if it is there.
def leave (o : Option Place) (p : Place) : Option Place :=
  if o = some p then none else o

-- A job that is not leased may have no place at all.
theorem suits_leave {p : Place} (hs : h.Suits o) (hn : h.state ≠ .active) (hp : p ≠ .zset .activeLeases) :
    h.Suits (leave o p) := by
  unfold leave
  split
  case isFalse   => exact hs
  case isTrue he =>
    subst he
    match p, hs with
    | .list (.ready _ _),  hs => exact ⟨hs.left, hn⟩
    | .zset .delayed,      hs => exact ⟨hs.left, hn⟩
    | .zset .activeLeases, _  => exact absurd rfl hp

theorem Only.zrem (h : r.Only j o) : (r.zrem z j).Only j (leave o (.zset z)) := by
  intro p hp
  rw [zrem_occurrences, h p hp]
  unfold leave
  by_cases he : p = .zset z
  case pos => subst he; by_cases ho : o = some (.zset z) <;> simp [ho]
  case neg => by_cases ho : o = some (.zset z) <;> simp [ho, he, eq_comm]

theorem Only.zrem_self (h : r.Only j (some (.zset z))) : (r.zrem z j).Only j none := by
  simpa [leave] using h.zrem (z := z)

theorem Only.lrem (h : r.Only j o) : (r.lrem k j).Only j (leave o (.list k)) := by
  intro p hp
  rw [lrem_occurrences, h p hp]
  unfold leave
  by_cases he : p = .list k
  case pos => subst he; by_cases ho : o = some (.list k) <;> simp [ho]
  case neg => by_cases ho : o = some (.list k) <;> simp [ho, he, eq_comm]

theorem Only.of_score? (h : r.Only j o) (hz : ((r.zsets z).score? j).isSome) : o = some (.zset z) := by
  have hk := h (.zset z) trivial
  by_contra hne
  simp [occurrences, hne, hz] at hk

theorem Seat.of_unchanged (hu : r.Unchanged j r') (h : r.Seat j o) : r'.Seat j o where
  only          := h.only.of_unchanged hu
  suits x hx    := h.suits x (hu.jobs.symm.trans hx)
  known hx      := h.known (hu.jobs.symm.trans hx)
  lease x hx hs := by
    rw [hu.score]
    exact h.lease x (hu.jobs.symm.trans hx) hs

theorem ne_active_of_suits (hs : h.Suits o) (hn : o ≠ some (.zset .activeLeases)) : h.state ≠ .active := by
  intro ha
  match o, hs with
  | none,                       hs => exact hs.right ha
  | some (.list (.ready _ _)),  hs => simp [ha, JobHash.Suits] at hs
  | some (.zset .delayed),      hs => simp [ha, JobHash.Suits] at hs
  | some (.zset .activeLeases), _  => exact hn rfl

-- A job which is not active is in its place if its hash suits the place.
theorem Only.seat (ho : r.Only j o) (hj : r.jobs j = some h) (hs : h.Suits o) (hn : h.state ≠ .active) :
    r.Seat j o where
  only          := ho
  suits _ hx    := Option.some.inj (hj.symm.trans hx) ▸ hs
  known hx      := nomatch hj.symm.trans hx
  lease _ hx ha := absurd (Option.some.inj (hj.symm.trans hx) ▸ ha) hn

theorem Only.idle (ho : r.Only j none) (hs : (f ((r.jobs j).getD .empty)).Suits none) : (r.hset j f).Seat j none :=
  Only.seat (r := r.hset j f) ho hset_jobs_self hs (ne_active_of_suits hs nofun)

theorem Only.dead (ho : r.Only j none) (hs : (f ((r.jobs j).getD .empty)).Suits none) :
    ((r.hset j f).lpush (.dlq q) j).Seat j none :=
  Only.seat (Only.lpush_dlq (r := r.hset j f) ho) (by simp) hs (ne_active_of_suits hs nofun)

theorem Only.ready (ho : r.Only j none) (hs : (f ((r.jobs j).getD .empty)).Suits (some (.list (.ready q n)))) :
    ((r.hset j f).lpush (.ready q n) j).Seat j (some (.list (.ready q n))) :=
  Only.seat (Only.lpush (r := r.hset j f) ho) (by simp) hs (ne_active_of_suits hs nofun)

theorem Only.delayed (ho : r.Only j none) (hs : (f ((r.jobs j).getD .empty)).Suits (some (.zset .delayed))) :
    ((r.hset j f).zadd .delayed j s).Seat j (some (.zset .delayed)) :=
  Only.seat (Only.zadd (r := r.hset j f) ho) (by simp) hs (ne_active_of_suits hs nofun)

theorem Seat.lrem_dlq (h : r.Seat j o) : (r.lrem (.dlq q) j).Seat j o :=
  ⟨h.only.lrem_dlq, h.suits, h.known, h.lease⟩

theorem Seated.update (hr : r.Seated) (hu : ∀ i, i ≠ j → r.Unchanged i r') (hj : ∃ o, r'.Seat j o) :
    r'.Seated := by
  intro i
  by_cases hi : i = j
  case pos => exact hi ▸ hj
  case neg =>
    have ⟨o, ho⟩ := hr i
    exact ⟨o, ho.of_unchanged (hu i hi)⟩

-- A token is held only as long as the job is leased.
theorem Seat.of_token (h : r.Seat j o) {x : JobHash} (hx : r.jobs j = some x) (ht : x.leaseToken ≠ "") :
    o = some (.zset .activeLeases) := by
  have hs := h.suits x hx
  match o, hs with
  | none,                        hs => exact absurd hs.left ht
  | some (.list (.ready _ _)),   hs => exact absurd hs.left ht
  | some (.zset .delayed),       hs => exact absurd hs.left ht
  | some (.zset .activeLeases),  _  => rfl

theorem Seat.of_active (h : r.Seat j o) {x : JobHash} (hx : r.jobs j = some x) (ha : x.state = .active) :
    o = some (.zset .activeLeases) := by
  by_contra hn
  exact ne_active_of_suits (h.suits x hx) hn ha

namespace Seated

open RedisBroker

variable {b : RedisBroker} {job : Job} {leaseToken : Token} {body : Redis → Redis} {ttl now : Int}

theorem empty : Redis.empty.Seated := by
  intro j
  refine ⟨none, fun p _ => ?_, (fun _ h => nomatch h), fun _ => rfl, fun _ h => nomatch h⟩
  cases p <;> simp [Redis.empty, occurrences]

theorem lset_drop (hr : r.Seated) (hl : r.lists (.ready q n) = j :: ids)
    (hd : ∀ h, r.jobs j = some h → h.state.isRunnable = false) : (r.lset (.ready q n) ids).Seated := by
  refine hr.update (fun i hi => .lpop hl hi) ?_
  have ⟨o, ho⟩ := hr j
  have ⟨he, hn⟩ := ho.only.lpop hl
  subst he
  cases hj : r.jobs j
  case none   => exact absurd (ho.known hj) nofun
  case some h =>
    have ⟨ht, hs⟩ := ho.suits h hj
    have hs : h.state = .canceled := hs.resolve_left fun hq => by simpa [hq, JobState.isRunnable] using hd h hj
    exact ⟨none, Only.seat (r := r.lset _ ids) hn hj ⟨ht, by simp [hs]⟩ (by simp [hs])⟩

theorem dequeueLua {workerID : WorkerID} {queues : List QueueName} (hr : r.Seated) :
    (b.dequeueLua workerID ttl now (readyKeysForQueues queues) r).1.Seated := by
  apply dequeueLua_rule (P := Redis.Seated) (Q := fun r _ => r.Seated)
  case hr    => exact hr
  case none  => exact fun _ => id
  case drop  =>
    intro r k j rest hr hk hl hs
    obtain ⟨q, n, rfl⟩ := mem_readyKeysForQueues hk
    exact hr.lset_drop hl hs
  case lease =>
    intro r k j rest h hr hk hl hj hs
    obtain ⟨q, n, rfl⟩ := mem_readyKeysForQueues hk
    refine hr.update (fun i hi => .trans (.lpop hl hi) (lease_unchanged hi)) ?_
    have ⟨o, ho⟩ := hr j
    have hn := (ho.only.lpop hl).right
    refine ⟨some (.zset .activeLeases), Only.zadd (r := (r.lset _ rest).hset j _) hn, ?_, ?_, ?_⟩
    · simp [lease, JobHash.lease, JobHash.Suits]
    · simp [lease]
    · simp [lease, JobHash.lease, zadd_score?]

theorem heartbeatLua (hr : r.Seated) : (RedisBroker.heartbeatLua j leaseToken ttl now r).1.Seated := by
  apply heartbeatLua_rule (Q := fun x => x.1.Seated) <;> dsimp only
  case rejected => exact hr
  case accepted =>
    intro h hj ht ha
    refine hr.update (fun i hi => renew_unchanged hi) ?_
    have ⟨o, ho⟩ := hr j
    have he := ho.of_active hj ha
    subst he
    refine ⟨_, Only.zadd_self (r := r.hset j _) ho.only, ?_, ?_, ?_⟩
    · simp [renew, JobHash.renew, JobHash.Suits, hj, ha]
    · simp [renew]
    · simp [renew, JobHash.renew, zadd_score?]

theorem endLease (hr : r.Seated) (hn : leaseToken ≠ "")
    (hu : ∀ i, i ≠ j → ∀ r : Redis, r.Unchanged i (body r))
    (hb : ∀ (r : Redis) h, r.jobs j = some h → r.Only j none → ∃ o, (body r).Seat j o) :
    (RedisBroker.endLease j leaseToken body r).1.Seated := by
  apply endLease_rule (Q := fun x => x.1.Seated) <;> dsimp only
  case rejected => exact hr
  case accepted =>
    intro h hj ht
    have ⟨o, ho⟩ := hr j
    have he := ho.of_token hj (ht ▸ hn)
    subst he
    refine hr.update (fun i hi => .trans (.zrem hi) (hu i hi _)) (hb _ h hj ho.only.zrem_self)

theorem completeLua {result : String} (hr : r.Seated) (hn : leaseToken ≠ "") :
    (RedisBroker.completeLua job leaseToken now result r).1.Seated := by
  refine hr.endLease hn (fun i hi _ => .hset hi) fun r h hj ho => ⟨none, ?_⟩
  exact ho.idle ⟨rfl, nofun⟩

theorem failLua {errMessage : String} {retryAt : Option Int} (hr : r.Seated) (hn : leaseToken ≠ "") :
    (RedisBroker.failLua job leaseToken errMessage retryAt now r).1.Seated := by
  cases retryAt
  case some =>
    refine hr.endLease hn (fun i hi _ => .trans (.hset hi) (.zadd hi)) fun r h hj ho => ⟨some (.zset .delayed), ?_⟩
    exact ho.delayed ⟨rfl, by simp [JobHash.retryAfterFailure]⟩
  case none =>
    refine hr.endLease hn (fun i hi _ => .trans (.hset hi) (.lpush hi)) fun r h hj ho => ⟨none, ?_⟩
    exact ho.dead ⟨rfl, nofun⟩

theorem throttleLua {reason : String} {retryAt : Int} (hr : r.Seated) (hn : leaseToken ≠ "") :
    (RedisBroker.throttleLua job leaseToken now reason retryAt r).1.Seated := by
  refine hr.endLease hn (fun i hi _ => .trans (.hset hi) (.zadd hi)) fun r h hj ho => ⟨some (.zset .delayed), ?_⟩
  exact ho.delayed ⟨rfl, by simp [JobHash.throttle]⟩

theorem activateDueLua {limit : Int} (hr : r.Seated) : (RedisBroker.activateDueLua limit now r).1.Seated := by
  apply activateAll_rule (P := Redis.Seated) SortedSet.rangeByScore_nodup
  case hr => exact hr
  case hs =>
    intro r j _ _ hz hr
    refine hr.update (fun i => activate_unchanged) ?_
    have ⟨o, ho⟩ := hr j
    have he := ho.only.of_score? hz
    subst he
    cases hj : r.jobs j
    case none   => exact absurd (ho.known hj) nofun
    case some h =>
      have hn : (r.zrem .delayed j).Only j none := ho.only.zrem_self
      simp only [activate, hj]
      exact ⟨_, hn.ready ⟨rfl, .inl rfl⟩⟩

theorem recoverExpiredLua {limit : Int} (hr : r.Seated) : (b.recoverExpiredLua limit now r).1.Seated := by
  apply recoverAll_rule (P := Redis.Seated) SortedSet.rangeByScore_nodup
  case hr      => exact hr
  case absent  =>
    intro r j _ _ hj hr
    refine hr.update (fun i => .zrem) ?_
    have ⟨o, ho⟩ := hr j
    have he := ho.known hj
    subst he
    exact ⟨none, ho.only.zrem, ho.suits, ho.known, fun h hx => nomatch hj.symm.trans hx⟩
  case present =>
    intro r j h _ _ hz hj hr
    refine hr.update (fun i hi => .trans (.zrem hi) (recover_unchanged hi)) ?_
    have ⟨o, ho⟩ := hr j
    have he := ho.only.of_score? hz
    subst he
    have hn : (r.zrem .activeLeases j).Only j none := ho.only.zrem_self
    apply recover_rule (Q := fun x => ∃ o, x.1.Seat j o) <;> dsimp only
    case canceled => exact fun _ => ⟨none, hn.idle ⟨rfl, nofun⟩⟩
    case retrying => exact fun _ _ _ _ => ⟨_, hn.delayed ⟨rfl, by simp [JobHash.retryExpired]⟩⟩
    case aborted  => exact fun _ _ _ => ⟨none, hn.idle ⟨rfl, nofun⟩⟩
    case failed   => exact fun _ _ => ⟨none, hn.dead ⟨rfl, nofun⟩⟩

-- A job is enqueued when there is no hash of it, or a blocked one.
theorem enqueue {now : Time} (hr : r.Seated) (hb : ∀ h, r.jobs job.id = some h → h.state = .blocked)
    (ht : job.leaseToken = "") (hs : job.state = .queued ∨ job.state = .scheduled ∨ job.state = .blocked) :
    (RedisBroker.enqueue job now r).Seated := by
  refine hr.update (fun i => enqueue_unchanged) ?_
  have ⟨o, ho⟩ := hr job.id
  have he : o = none := by
    cases hj : r.jobs job.id
    case none   => exact ho.known hj
    case some h =>
      have hs := ho.suits h hj
      have hb := hb h hj
      match o, hs with
      | none,                       _  => rfl
      | some (.list (.ready _ _)),  hs => simp [hb, JobHash.Suits] at hs
      | some (.zset .delayed),      hs => simp [hb, JobHash.Suits] at hs
      | some (.zset .activeLeases), hs => simp [hb, JobHash.Suits] at hs
  subst he
  have hn := ho.only
  unfold RedisBroker.enqueue
  dsimp only
  split
  case isTrue hb  => exact ⟨none, hn.idle ⟨ht, by simp [jobHash, hb]⟩⟩
  case isFalse hb =>
    split
    case isTrue  =>
      have hs : job.state = .queued ∨ job.state = .scheduled := by simpa [hb] using hs
      exact ⟨_, hn.delayed ⟨ht, by obtain hs | hs := hs <;> simp [jobHash, hs]⟩⟩
    case isFalse =>
      split
      case isTrue hq  => exact ⟨_, hn.ready ⟨ht, .inl hq⟩⟩
      case isFalse hq => exact absurd (hs.resolve_left hq) (by simp_all)

-- An operator retries a job that has no place, which then is in a ready list or delayed.
theorem retry_seat {now : Time} (hn : r.Only job.id none) :
    ∃ p, (p = .list (.ready job.queue job.priority) ∨ p = .zset .delayed) ∧
    (RedisBroker.retry job now r).Seat job.id (some p) := by
  unfold RedisBroker.retry
  dsimp only
  split
  case isTrue  =>
    refine ⟨_, .inr rfl, Seat.lrem_dlq (Only.delayed (r := r.hset job.id _) hn ⟨?_, ?_⟩)⟩
    · simp [JobHash.schedule, JobHash.retry]
    · simp [JobHash.schedule]
  case isFalse => exact ⟨_, .inl rfl, Seat.lrem_dlq (hn.ready ⟨rfl, .inl rfl⟩)⟩

theorem retry {now : Time} (hr : r.Seated) (hn : r.Only job.id none) : (RedisBroker.retry job now r).Seated := by
  have ⟨p, _, hs⟩ := @retry_seat r job now hn
  exact hr.update (fun i => retry_unchanged) ⟨_, hs⟩

-- Whatever `Cancel` has loaded, the job remains where it is, or it is canceled and taken out of there.
theorem cancelLoaded (hr : r.Seated) : (RedisBroker.cancelLoaded j job now r).Seated := by
  refine hr.update (fun i => cancelLoaded_unchanged) ?_
  have ⟨o, ho⟩ := hr j
  have hs : ((r.jobs j).getD .empty).Suits o := by
    cases hj : r.jobs j
    case none   => exact ho.known hj ▸ ⟨rfl, nofun⟩
    case some h => exact ho.suits h hj
  unfold RedisBroker.cancelLoaded
  dsimp only
  split
  case isTrue  =>
    let r' := (((r.hset j (·.requestCancel now)).lrem (.ready job.queue job.priority) j).zrem .delayed j).lrem
      (.dlq job.queue) j
    have hl : r'.Only j (leave (leave o (.list (.ready job.queue job.priority))) (.zset .delayed)) :=
      (Only.zrem (Only.lrem (r := r.hset j _) ho.only)).lrem_dlq
    refine ⟨_, Only.seat (r := r'.hset j (·.cancel now)) hl hset_jobs_self ?_ nofun⟩
    have hj : (r'.jobs j).getD .empty = ((r.jobs j).getD .empty).requestCancel now := by simp [r']
    rw [hj]
    have hs : ((((r.jobs j).getD .empty).requestCancel now).cancel now).Suits o := by
      match o, hs with
      | none,                       hs => exact ⟨hs.left, nofun⟩
      | some (.list (.ready _ _)),  hs => exact ⟨hs.left, .inr rfl⟩
      | some (.zset .delayed),      hs => exact ⟨hs.left, by simp [JobHash.cancel]⟩
      | some (.zset .activeLeases), _  => exact .inr rfl
    exact suits_leave (suits_leave hs nofun nofun) nofun nofun
  case isFalse =>
    refine ⟨o, ho.only, ?_, ?_, ?_⟩
    · intro h hj
      cases hset_jobs_self.symm.trans hj
      exact hs
    · simp
    · intro h hj ha
      cases hset_jobs_self.symm.trans hj
      cases hj : r.jobs j
      case none   => rw [hj] at ha; exact absurd ha nofun
      case some h => rw [hj] at ha; exact ho.lease h hj ha

end Seated
end Redis
end JobPlatform
