import JobPlatform.Queue.Budget
import JobPlatform.Queue.Seats

namespace JobPlatform

theorem Score.ofInt_le {m n : Int} : Score.ofInt m ≤ .ofInt n ↔ m ≤ n := by
  simp [Score.ofInt]

-- A time that is stored as zero has passed.
theorem RedisBroker.storedMillis_le {d : Double} {now : Int} {s : Score} (hn : 0 ≤ now) (hs : d.toScore = some s) :
    storedMillis d ≤ now ∨ .ofInt (storedMillis d) ≤ s := by
  cases d
  case int n =>
    cases hs
    simp only [storedMillis]
    split
    case isTrue  => exact .inr le_rfl
    case isFalse => exact .inl hn
  all_goals exact .inl hn

namespace Redis

-- A job in a ready list is due, one in the set of delayed jobs will be when it is taken out of there, and a lease on
-- which its holder relies until `d` is over, or will not be recovered before.
structure Timed (r : Redis) (j : JobID) (d : Option Int) (now : Int) : Prop where
  ready   : ∀ h q n, r.jobs j = some h → 0 < r.occurrences j (.list (.ready q n)) → h.runAt ≤ now
  delayed : ∀ h s, r.jobs j = some h → (r.zsets .delayed).score? j = some s → h.runAt ≤ now ∨ .ofInt h.runAt ≤ s
  lease   : ∀ t ∈ d, t ≤ now ∨ (r.zsets .activeLeases).score? j = some (.ofInt t)

variable {r r' : Redis} {i j : JobID} {d : Option Int} {now t ttl : Int} {h : JobHash} {f : JobHash → JobHash}
         {q : QueueName} {n : Int} {s : Score} {o : Option Place} {job : Job}

theorem lrem_occurrences_le {k : ListKey} {p : Place} : (r.lrem k i).occurrences j p ≤ r.occurrences j p := by
  rw [lrem_occurrences]
  split <;> simp

theorem zrem_occurrences_le {z : ZSetKey} {p : Place} : (r.zrem z i).occurrences j p ≤ r.occurrences j p := by
  rw [zrem_occurrences]
  split <;> simp

theorem Only.unready (ho : r.Only j o) (hn : o ≠ some (.list (.ready q n))) :
    r.occurrences j (.list (.ready q n)) = 0 := by
  rw [ho (.list (.ready q n)) trivial, if_neg hn]

theorem Only.score?_eq_none {z : ZSetKey} (ho : r.Only j o) (hn : o ≠ some (.zset z)) :
    (r.zsets z).score? j = none := by
  by_contra hs
  exact hn <| ho.of_score? <| Option.isSome_iff_ne_none.mpr hs

theorem leave_none {p : Place} : leave none p = none := by
  simp [leave]

theorem Seat.of_blocked (h : r.Seat j o) (hb : ∀ h, r.jobs j = some h → h.state = .blocked) : o = none := by
  cases hj : r.jobs j
  case none   => exact h.known hj
  case some x =>
    have hs := h.suits x hj
    have hb := hb x hj
    match o, hs with
    | none,                       _  => rfl
    | some (.list (.ready _ _)),  hs => simp [hb, JobHash.Suits] at hs
    | some (.zset .delayed),      hs => simp [hb, JobHash.Suits] at hs
    | some (.zset .activeLeases), hs => simp [hb, JobHash.Suits] at hs

-- Nothing is left of a lease which is not in the set of leases any more.
theorem Timed.over (h : r.Timed j d now) (ho : r.Only j o) (hn : o ≠ some (.zset .activeLeases)) :
    ∀ t ∈ d, t ≤ now := by
  intro t ht
  obtain ht | hs := h.lease t ht
  · exact ht
  · simp [ho.score?_eq_none hn] at hs

namespace Timed

theorem of_unchanged (h : r.Timed j d now) (hu : r.Unchanged j r') : r'.Timed j d now where
  ready x q n hx hl   := h.ready x q n (hu.jobs.symm.trans hx) (by rwa [hu.occurrences] at hl)
  delayed x s hx hs   := h.delayed x s (hu.jobs.symm.trans hx) ((hu.score _).symm.trans hs)
  lease t ht          := by
    rw [hu.score]
    exact h.lease t ht

theorem mono (h : r.Timed j d now) (hn : now ≤ t) : r.Timed j d t where
  ready x q n hx hl := (h.ready x q n hx hl).trans hn
  delayed x s hx hs := (h.delayed x s hx hs).imp_left (·.trans hn)
  lease t ht        := (h.lease t ht).imp_left (·.trans hn)

-- The job is written without changing when it may run, and at most it is taken out of some places.
theorem keep (h : r.Timed j d now)
    (hj : ∀ x', r'.jobs j = some x' → x'.runAt ≤ now ∨ ∃ x, r.jobs j = some x ∧ x'.runAt = x.runAt)
    (hl : ∀ q n, r'.occurrences j (.list (.ready q n)) ≤ r.occurrences j (.list (.ready q n)))
    (hz : ∀ s, (r'.zsets .delayed).score? j = some s → (r.zsets .delayed).score? j = some s) {d' : Option Int}
    (hd : ∀ t ∈ d', t ≤ now ∨ (r'.zsets .activeLeases).score? j = some (.ofInt t)) : r'.Timed j d' now where
  ready x' q n hx' ho := by
    obtain hn | ⟨x, hx, he⟩ := hj x' hx'
    · exact hn
    · exact he ▸ h.ready x q n hx (ho.trans_le (hl q n))
  delayed x' s hx' hs := by
    obtain hn | ⟨x, hx, he⟩ := hj x' hx'
    · exact .inl hn
    · exact he ▸ h.delayed x s hx (hz s hs)
  lease               := hd

-- The job has been taken out of its place.
theorem idle (ho : r.Only j none) (hd : ∀ t ∈ d, t ≤ now) : r.Timed j d now where
  ready _ _ _ _ hl  := by simp [ho.unready] at hl
  delayed _ _ _ hs  := by simp [ho.score?_eq_none] at hs
  lease t ht        := .inl (hd t ht)

theorem queue (ho : r.Only j none) (hj : ∀ x, r.jobs j = some x → x.runAt ≤ now) (hd : ∀ t ∈ d, t ≤ now) :
    (r.lpush (.ready q n) j).Timed j d now where
  ready x _ _ hx _  := hj x hx
  delayed _ _ _ hs  := by simp [ho.score?_eq_none] at hs
  lease t ht        := .inl (hd t ht)

theorem delay (ho : r.Only j none) (hj : ∀ x, r.jobs j = some x → x.runAt ≤ now ∨ .ofInt x.runAt ≤ s)
    (hd : ∀ t ∈ d, t ≤ now) : (r.zadd .delayed j s).Timed j d now where
  ready _ _ _ _ hl  := by simp [zadd_occurrences, ho.unready] at hl
  delayed x s hx hs := by
    simp only [zadd_score?, and_self, if_true, Option.some_inj] at hs
    exact hs ▸ hj x hx
  lease t ht        := .inl (hd t ht)

open RedisBroker

variable {b : RedisBroker} {workerID : WorkerID} {queues : List QueueName} {leaseToken : Token} {body : Redis → Redis}

theorem lpop {q : QueueName} {n : Int} {rest : List JobID} (h : r.Timed j d now)
    (hl : r.lists (.ready q n) = i :: rest) : (r.lset (.ready q n) rest).Timed j d now := by
  apply keep h
  case hj => exact fun x hx => .inr ⟨x, hx, rfl⟩
  case hz => exact fun _ hs => hs
  case hd => exact h.lease
  case hl =>
    intro q' n'
    rw [lpop_occurrences hl]
    exact Nat.le_add_right ..

-- What a lease is granted for is when it expires.
def deadlineOf (j : JobID) (d : Option Int) (t : Int) : Option (JobID × Token) → Option Int
  | some (i, _) => if i = j then some t else d
  | none        => d

theorem dequeueLua (h : r.Timed j d now) :
    (b.dequeueLua workerID ttl now (readyKeysForQueues queues) r).1.Timed j
      (deadlineOf j d (now + ttl) (b.dequeueLua workerID ttl now (readyKeysForQueues queues) r).2) now := by
  apply dequeueLua_rule (P := (Redis.Timed · j d now))
    (Q := fun r' res => r'.Timed j (deadlineOf j d (now + ttl) res) now)
  case hr    => exact h
  case none  => exact fun _ => id
  case drop  =>
    intro r k i rest h hk hl _
    obtain ⟨q, n, rfl⟩ := mem_readyKeysForQueues hk
    exact h.lpop hl
  case lease =>
    intro r k i rest x h hk hl hi _
    obtain ⟨q, n, rfl⟩ := mem_readyKeysForQueues hk
    by_cases hj : j = i
    case neg => simpa [deadlineOf, Ne.symm hj] using (h.lpop hl).of_unchanged (lease_unchanged hj)
    case pos =>
      subst hj
      refine (h.lpop hl).keep ?_ ?_ ?_ ?_
      · simp [RedisBroker.lease, hi, JobHash.lease]
      · simp [RedisBroker.lease, zadd_occurrences]
      · simp [RedisBroker.lease, zadd_score?]
      · simp [RedisBroker.lease, zadd_score?, deadlineOf]


-- The job that is leased is due, and its former lease is over.
theorem dequeueLua_due {d : JobID → Option Int} {lease : JobID × Token} (ht : ∀ j, r.Timed j (d j) now) (hr : r.Seated)
    (hl : (b.dequeueLua workerID ttl now (readyKeysForQueues queues) r).2 = some lease) :
    (∃ h, r.jobs lease.1 = some h ∧ h.runAt ≤ now) ∧ ∀ t ∈ d lease.1, t ≤ now := by
  revert hl
  apply dequeueLua_rule (P := fun r' => r'.jobs = r.jobs ∧ r'.Seated ∧ ∀ j, r'.Timed j (d j) now)
    (Q := fun _ res => res = some lease → (∃ h, r.jobs lease.1 = some h ∧ h.runAt ≤ now) ∧ ∀ t ∈ d lease.1, t ≤ now)
  case hr    => exact ⟨rfl, hr, ht⟩
  case none  =>
    intro _ _ h
    cases h
  case drop  =>
    rintro r' k i rest ⟨hj, hr, ht⟩ hk hl hd
    obtain ⟨q, n, rfl⟩ := mem_readyKeysForQueues hk
    exact ⟨hj, hr.lset_drop hl hd, fun j => (ht j).lpop hl⟩
  case lease =>
    rintro r' k i rest x ⟨hj, hr, ht⟩ hk hl hi _ he
    obtain ⟨q, n, rfl⟩ := mem_readyKeysForQueues hk
    cases he
    obtain ⟨o, ho⟩ := hr i
    refine ⟨⟨x, hj ▸ hi, (ht i).ready x q n hi ?_⟩, (ht i).over ho.only ?_⟩
    · simp [occurrences, hl]
    · simp [(ho.only.lpop hl).left]

theorem heartbeatLua (h : r.Timed j d now) :
    (RedisBroker.heartbeatLua i leaseToken ttl now r).1.Timed j
      (if i = j ∧ (RedisBroker.heartbeatLua i leaseToken ttl now r).2 then some (now + ttl) else d) now := by
  apply heartbeatLua_rule (Q := fun x => x.1.Timed j (if i = j ∧ x.2 then some (now + ttl) else d) now)
  case rejected => simpa using h
  case accepted =>
    intro x hi _ _
    by_cases hj : j = i
    case neg => simpa [Ne.symm hj] using h.of_unchanged (renew_unchanged hj)
    case pos =>
      subst hj
      refine h.keep ?_ ?_ ?_ ?_
      · simp [RedisBroker.renew, hi, JobHash.renew]
      · simp [RedisBroker.renew, zadd_occurrences]
      · simp [RedisBroker.renew, zadd_score?]
      · simp [RedisBroker.renew, zadd_score?]

-- Nothing is left of a lease that has been ended by its holder.
theorem endLease (h : r.Timed j d now) (hr : r.Seated) (hn : leaseToken ≠ "")
    (hu : ∀ r : Redis, j ≠ i → r.Unchanged j (body r))
    (hb : ∀ (r : Redis) x, r.jobs i = some x → r.Only i none → (body r).Timed i none now) :
    (RedisBroker.endLease i leaseToken body r).1.Timed j
      (if i = j ∧ (RedisBroker.endLease i leaseToken body r).2 then none else d) now := by
  apply endLease_rule (Q := fun x => x.1.Timed j (if i = j ∧ x.2 then none else d) now)
  case rejected => simpa using h
  case accepted =>
    intro x hi ht
    by_cases hj : j = i
    case neg => simpa [Ne.symm hj] using h.of_unchanged (.trans (.zrem hj) (hu _ hj))
    case pos =>
      subst hj
      have ⟨o, ho⟩ := hr j
      have he := ho.of_token hi (ht ▸ hn)
      subst he
      simpa using hb (r.zrem .activeLeases j) x hi ho.only.zrem_self

theorem completeLua {result : String} (h : r.Timed j d now) (hr : r.Seated) (hn : leaseToken ≠ "") :
    (RedisBroker.completeLua job leaseToken now result r).1.Timed j
      (if job.id = j ∧ (RedisBroker.completeLua job leaseToken now result r).2 then none else d) now :=
  h.endLease hr hn (fun _ hj => .hset hj) fun r _ _ ho => idle (r := r.hset job.id _) ho nofun

theorem failLua {errMessage : String} {retryAt : Option Int} (h : r.Timed j d now) (hr : r.Seated)
    (hn : leaseToken ≠ "") : (RedisBroker.failLua job leaseToken errMessage retryAt now r).1.Timed j
      (if job.id = j ∧ (RedisBroker.failLua job leaseToken errMessage retryAt now r).2 then none else d) now := by
  cases retryAt
  case none    =>
    refine h.endLease hr hn (fun _ hj => .trans (.hset hj) (.lpush hj)) fun r _ _ ho => ?_
    exact idle (Only.lpush_dlq (r := r.hset job.id _) ho) nofun
  case some t =>
    refine h.endLease hr hn (fun _ hj => .trans (.hset hj) (.zadd hj)) fun r _ _ ho => ?_
    exact delay (r := r.hset job.id _) ho (by simp [JobHash.retryAfterFailure]) nofun

theorem throttleLua {reason : String} {retryAt : Int} (h : r.Timed j d now) (hr : r.Seated) (hn : leaseToken ≠ "") :
    (RedisBroker.throttleLua job leaseToken now reason retryAt r).1.Timed j
      (if job.id = j ∧ (RedisBroker.throttleLua job leaseToken now reason retryAt r).2 then none else d) now := by
  refine h.endLease hr hn (fun _ hj => .trans (.hset hj) (.zadd hj)) fun r _ _ ho => ?_
  exact delay (r := r.hset job.id _) ho (by simp [JobHash.throttle]) nofun

theorem activateDueLua {limit : Int} (h : r.Timed j d now) (hr : r.Seated) :
    (RedisBroker.activateDueLua limit now r).1.Timed j d now := by
  apply activateAll_rule (P := (Redis.Timed · j d now)) SortedSet.rangeByScore_nodup
  case hr => exact h
  case hs =>
    intro r' i hm hu hz h
    by_cases hj : j = i
    case neg => exact h.of_unchanged (activate_unchanged hj)
    case pos =>
      subst hj
      have ⟨o, ho⟩ := hr j
      have ho := ho.of_unchanged hu
      have he := ho.only.of_score? hz
      subst he
      have hd := h.over ho.only nofun
      obtain ⟨s, hs, hl⟩ := SortedSet.mem_rangeByScore hm
      have hs := (hu.score .delayed).trans hs
      unfold activate
      split
      case h_1      => exact idle ho.only.zrem_self hd
      case h_2 x hx =>
        refine queue (r := (r'.zrem .delayed j).hset j _) ho.only.zrem_self (fun y hy => ?_) hd
        simp only [hset_jobs_self, zrem_jobs, hx, Option.getD_some, Option.some_inj] at hy
        subst hy
        exact (h.delayed x s hx hs).elim id fun hx => Score.ofInt_le.mp (hx.trans hl)

theorem recoverExpiredLua {limit : Int} (h : r.Timed j d now) (hr : r.Seated) (hn : 0 ≤ now) :
    (b.recoverExpiredLua limit now r).1.Timed j d now := by
  apply recoverAll_rule (P := (Redis.Timed · j d now)) SortedSet.rangeByScore_nodup
  case hr      => exact h
  case absent  =>
    intro r' i hm hu hi h
    by_cases hj : j = i
    case neg => exact h.of_unchanged (.zrem hj)
    case pos =>
      subst hj
      have ⟨o, ho⟩ := hr j
      have ho := ho.of_unchanged hu
      have he := ho.known hi
      subst he
      exact idle (leave_none ▸ ho.only.zrem) (h.over ho.only nofun)
  case present =>
    intro r' i x hm hu hz hi h
    by_cases hj : j = i
    case neg => exact h.of_unchanged (.trans (.zrem hj) (recover_unchanged hj))
    case pos =>
      subst hj
      have ⟨o, ho⟩ := hr j
      have ho := ho.of_unchanged hu
      have he := ho.only.of_score? hz
      subst he
      have ho := ho.only.zrem_self
      obtain ⟨s, hs, hl⟩ := SortedSet.mem_rangeByScore hm
      have hs := (hu.score .activeLeases).trans hs
      have hd : ∀ t ∈ d, t ≤ now := by
        intro t ht
        obtain ht | ht := h.lease t ht
        · exact ht
        · cases hs.symm.trans ht
          exact Score.ofInt_le.mp hl
      apply recover_rule (Q := fun x => x.1.Timed j d now) <;> dsimp only
      case canceled => exact fun _ => idle (r := (r'.zrem .activeLeases j).hset j _) ho hd
      case aborted  => exact fun _ _ _ => idle (r := (r'.zrem .activeLeases j).hset j _) ho hd
      case failed   => exact fun _ _ => idle (Only.lpush_dlq (r := (r'.zrem .activeLeases j).hset j _) ho) hd
      case retrying =>
        intro s _ _ hs
        refine delay (r := (r'.zrem .activeLeases j).hset j _) ho (fun y hy => ?_) hd
        simp only [hset_jobs_self, zrem_jobs, hi, Option.getD_some, Option.some_inj] at hy
        subst hy
        exact storedMillis_le hn hs

theorem enqueue {at' : Time} (h : r.Timed j d at'.unixMilli) (hr : r.Seated)
    (hb : ∀ h, r.jobs job.id = some h → h.state = .blocked) :
    (RedisBroker.enqueue job at' r).Timed j d at'.unixMilli := by
  by_cases hj : j = job.id
  case neg => exact h.of_unchanged (enqueue_unchanged hj)
  case pos =>
    subst hj
    have ⟨o, ho⟩ := hr job.id
    have he := ho.of_blocked hb
    subst he
    have hd := h.over ho.only nofun
    have hn : (r.hset job.id fun _ => jobHash job).Only job.id none := ho.only
    unfold RedisBroker.enqueue
    dsimp only
    split
    case isTrue  => exact idle hn hd
    case isFalse =>
      split
      case isTrue     => exact delay hn (by simp [jobHash]) hd
      case isFalse ht =>
        split
        case isFalse => exact idle hn hd
        case isTrue  =>
          have ht : job.runAt ≤ at' := not_lt.mp fun hl => ht (by simp [hl])
          exact queue hn (by simpa [jobHash] using Time.unixMilli_mono ht) hd

theorem retry {at' : Time} (h : r.Timed j d at'.unixMilli) (hn : r.Only job.id none) :
    (RedisBroker.retry job at' r).Timed j d at'.unixMilli := by
  by_cases hj : j = job.id
  case neg => exact h.of_unchanged (retry_unchanged hj)
  case pos =>
    subst hj
    have hd := h.over hn nofun
    have hl {r : Redis} (h : r.Timed job.id d at'.unixMilli) :
        (r.lrem (.dlq job.queue) job.id).Timed job.id d at'.unixMilli := by
      apply keep h
      case hj => exact fun x hx => .inr ⟨x, hx, rfl⟩
      case hz => exact fun _ hs => hs
      case hd => exact h.lease
      case hl => simp [lrem_occurrences]
    unfold RedisBroker.retry
    dsimp only
    refine hl ?_
    split
    case isTrue     =>
      refine delay (r := (r.hset job.id (·.retry job at'.unixMilli)).hset job.id (·.schedule)) hn ?_ hd
      simp [JobHash.retry, JobHash.schedule]
    case isFalse ht =>
      refine queue (r := r.hset job.id (·.retry job at'.unixMilli)) hn ?_ hd
      simpa [JobHash.retry] using Time.unixMilli_mono (not_lt.mp ht)

theorem cancelLoaded (h : r.Timed j d now) (hn : 0 ≤ now) : (RedisBroker.cancelLoaded i job t r).Timed j d now := by
  by_cases hj : j = i
  case neg => exact h.of_unchanged (cancelLoaded_unchanged hj)
  case pos =>
    subst hj
    refine h.keep (fun x hx => ?_) (fun q n => ?_) ?_ ?_
    · have hr : x.runAt = ((r.jobs j).getD .empty).runAt := by
        rw [cancelLoaded_jobs] at hx
        cases Option.some.inj hx
        split <;> rfl
      cases hj : r.jobs j
      case none   => exact .inl (by rw [hr, hj]; exact le_trans (by decide) hn)
      case some y => exact .inr ⟨y, rfl, by rw [hr, hj]; rfl⟩
    · unfold RedisBroker.cancelLoaded
      dsimp only
      split
      case isTrue  =>
        rw [hset_occurrences]
        refine lrem_occurrences_le.trans <| zrem_occurrences_le.trans ?_
        exact lrem_occurrences_le (r := r.hset j (·.requestCancel t))
      case isFalse => exact le_rfl
    · unfold RedisBroker.cancelLoaded
      dsimp only
      split
      case isTrue  => simp [zrem_score?]
      case isFalse => simp
    · unfold RedisBroker.cancelLoaded
      dsimp only
      split
      case isTrue  => simpa [zrem_score?] using h.lease
      case isFalse => exact h.lease

end Timed
end Redis

-- The broker, the time of the latest call to it, and until when the holder of a lease relies on it.
structure Calendar where
  redis    : Redis
  now      : Time
  deadline : JobID → Option Int

-- The time at which a call is made, if it depends on it.
def BrokerCall.time? : BrokerCall → Option Time
  | .enqueue _ now                => some now
  | .loadJob _                    => none
  | .dequeue _ _ _ now            => some now
  | .heartbeat _ _ _ now          => some now
  | .complete _ _ _ finishedAt    => some finishedAt
  | .fail _ _ _ _ failedAt        => some failedAt
  | .requeueThrottled _ _ _ _ now => some now
  | .activateDue _ now            => some now
  | .recoverExpired _ now         => some now
  | .retry _ now                  => some now
  | .cancelLoaded _ _ now         => some now

namespace Calendar

open RedisBroker

-- The clock starts at the epoch.
def start : Calendar where
  redis      := .empty
  now        := 0
  deadline _ := none

-- The lease is granted and renewed for some time, and it is over when its holder says so.
def deadlineBy (j : JobID) (d : Option Int) : (c : BrokerCall) → Except Error c.Resp → Option Int
  | .dequeue _ _ leaseTTL now,         .ok lease => Redis.Timed.deadlineOf j d (now.unixMilli + leaseTTL.milliseconds) lease
  | .heartbeat jobID _ leaseTTL now,   .ok ok    => if jobID = j ∧ ok then some (now.unixMilli + leaseTTL.milliseconds) else d
  | .complete job ..,                  .ok ok    => if job.id = j ∧ ok then none else d
  | .fail job ..,                      .ok ok    => if job.id = j ∧ ok then none else d
  | .requeueThrottled job ..,          .ok ok    => if job.id = j ∧ ok then none else d
  | _,                                 _         => d

def step (b : RedisBroker) (s : Calendar) (c : BrokerCall) : Calendar where
  redis      := (b.exec s.redis c).1
  now        := c.time?.getD s.now
  deadline j := deadlineBy j (s.deadline j) c (b.exec s.redis c).2

-- Jobs are enqueued once, or when they are blocked, and are retried when nothing is left of them in the queues.
def Proper (s : Calendar) : BrokerCall → Prop
  | .enqueue job _             => (s.redis.jobs job.id).all (·.state = .blocked) ∧ job.leaseToken = "" ∧
    (job.state = .queued ∨ job.state = .scheduled ∨ job.state = .blocked)
  | .complete _ leaseToken ..  => leaseToken ≠ ""
  | .fail _ leaseToken ..      => leaseToken ≠ ""
  | .requeueThrottled _ leaseToken .. => leaseToken ≠ ""
  | .retry job _               => s.redis.Only job.id none
  | _                          => True

def Allowed (s : Calendar) (c : BrokerCall) : Prop :=
  (∀ t ∈ c.time?, s.now ≤ t) ∧ s.Proper c

-- A job is leased when it is due, and when its holder does not rely on a former lease any more.
def Punctual (b : RedisBroker) (s : Calendar) (c : BrokerCall) : Prop :=
  ∀ lease ∈ c.grants (b.exec s.redis c).2,
    let now := (s.step b c).now.unixMilli
    (∃ h, s.redis.jobs lease.1 = some h ∧ h.runAt ≤ now) ∧ ∀ t ∈ s.deadline lease.1, t ≤ now

structure Sound (s : Calendar) : Prop where
  epoch  : 0 ≤ s.now
  seated : s.redis.Seated
  timed  : ∀ j, s.redis.Timed j (s.deadline j) s.now.unixMilli

variable {b : RedisBroker} {s : Calendar} {c : BrokerCall} {cs : List BrokerCall}

namespace Sound

theorem start : Sound start where
  epoch   := le_rfl
  seated  := .empty
  timed _ := .idle (fun p _ => by cases p <;> simp [Calendar.start, Redis.empty, Redis.occurrences]) nofun

theorem seated_step (h : Sound s) (hp : s.Proper c) : (s.step b c).redis.Seated := by
  have hr := h.seated
  cases c
  case enqueue          =>
    have ⟨hb, ht, hs⟩ := hp
    exact hr.enqueue (fun h hj => by simpa [hj] using hb) ht hs
  case loadJob          => exact hr
  case dequeue          => exact hr.dequeueLua
  case heartbeat        => exact hr.heartbeatLua
  case complete         => exact hr.completeLua hp
  case fail             => exact hr.failLua hp
  case requeueThrottled => exact hr.throttleLua hp
  case activateDue      => exact hr.activateDueLua
  case recoverExpired   => exact hr.recoverExpiredLua
  case retry            => exact hr.retry hp
  case cancelLoaded     => exact hr.cancelLoaded

-- Waiting for the next call does no harm.
theorem wait (h : Sound s) {t : Time} (ht : s.now ≤ t) : Sound { s with now := t } where
  epoch   := h.epoch.trans ht
  seated  := h.seated
  timed j := (h.timed j).mono (Time.unixMilli_mono ht)

theorem timed_step (h : Sound s) (hp : s.Proper c) (hn : ∀ t ∈ c.time?, s.now = t) (j : JobID) :
    (s.step b c).redis.Timed j ((s.step b c).deadline j) s.now.unixMilli := by
  have ht := h.timed j
  have hr := h.seated
  have h0 : 0 ≤ s.now.unixMilli := Int.ediv_nonneg h.epoch (by decide)
  cases c
  case loadJob          => exact ht
  all_goals
    have hn := hn _ rfl
    rw [hn] at ht h0 ⊢
  case enqueue          => exact ht.enqueue hr fun h hj => by simpa [hj] using hp.left
  case dequeue          => exact ht.dequeueLua
  case heartbeat        => exact ht.heartbeatLua
  case complete         => exact ht.completeLua hr hp
  case fail             => exact ht.failLua hr hp
  case requeueThrottled => exact ht.throttleLua hr hp
  case activateDue      => exact ht.activateDueLua hr
  case recoverExpired   => exact ht.recoverExpiredLua hr h0
  case retry            => exact ht.retry hp
  case cancelLoaded     => exact ht.cancelLoaded h0

theorem step (h : Sound s) (ha : s.Allowed c) : Sound (s.step b c) := by
  have hw : Sound { s with now := c.time?.getD s.now } := by
    cases ht : c.time?
    case none   => exact h
    case some t => exact h.wait (ha.left t ht)
  have hn (t : Time) (ht : t ∈ c.time?) : c.time?.getD s.now = t := by simp [Option.mem_def.mp ht]
  exact ⟨hw.epoch, hw.seated_step ha.right, hw.timed_step ha.right hn⟩

theorem punctual (h : Sound s) (ha : s.Allowed c) : s.Punctual b c := by
  cases c
  case dequeue workerID queues ttl now =>
    intro lease hl
    have h := h.wait (ha.left _ rfl)
    exact Redis.Timed.dequeueLua_due h.timed h.seated hl
  all_goals exact fun _ hl => nomatch hl

end Sound

-- Leases are granted in time, and do not overlap.
theorem punctual_of_allowed (hg : Run.Guarded (step b) Allowed start cs) : Run.Guarded (step b) (Punctual b) start cs :=
  (hg.strengthen (fun _ _ hs ha => hs.step ha) Sound.start).mono fun _ _ ⟨hs, ha⟩ => hs.punctual ha

-- The lease of the first worker is renewed and expires, and another worker takes over.
def takeover : List BrokerCall := [
  .enqueue Ledger.sampleJob (Ledger.sampleTime 0),
  .dequeue "worker-1" [] (30 * Duration.second) (Ledger.sampleTime 0),
  .heartbeat "job-1" Ledger.sampleToken (30 * Duration.second) (Ledger.sampleTime 10),
  .recoverExpired 200 (Ledger.sampleTime 35),
  .recoverExpired 200 (Ledger.sampleTime 45),
  .activateDue 200 (Ledger.sampleTime 50),
  .dequeue "worker-2" [] (30 * Duration.second) (Ledger.sampleTime 60)
]

theorem punctual_of_allowed_sample : Run.Guarded (step .sample) (Punctual .sample) start takeover := by
  refine punctual_of_allowed ⟨⟨?_, ?_⟩, ⟨?_, ?_⟩, ⟨?_, ?_⟩, ⟨?_, ?_⟩, ⟨?_, ?_⟩, ⟨?_, ?_⟩, ⟨?_, ?_⟩, trivial⟩
  all_goals trivial

example : (Run.last (step .sample) start takeover).deadline "job-1" = some 1700000090000 := by decide +kernel

end Calendar
end JobPlatform
