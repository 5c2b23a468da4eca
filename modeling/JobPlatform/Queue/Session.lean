import JobPlatform.Library.Run
import JobPlatform.Queue.Placement

namespace JobPlatform

-- The broker together with the lease tokens that it has handed out so far.
structure Session where
  redis   : Redis
  granted : List Token

namespace Session

open RedisBroker

def initial : Session where
  redis   := .empty
  granted := []

def grantedBy : (c : BrokerCall) → Except Error c.Resp → List Token
  | .dequeue .., .ok (some (_, leaseToken)) => [leaseToken]
  | _,           _                          => []

def step (b : RedisBroker) (s : Session) (c : BrokerCall) : Session where
  redis   := (b.exec s.redis c).1
  granted := s.granted ++ grantedBy c (b.exec s.redis c).2

-- The job that is passed to `Enqueue` is a new one, or one which is released as it is blocked.
inductive Enqueues (r : Redis) (job : Job) (now : Time) : Prop
  | submit (absent : r.jobs job.id = none) (builtAt : Time) (req : JobRequest)
      (built : job = buildJob builtAt req job.id) (due : job.state = .queued → job.runAt ≤ now)
  | release (h : JobHash) (stored : r.jobs job.id = some h) (blocked : h.state = .blocked)
      (unleased : job.leaseToken = "")
      (ready : job.state = .queued ∧ job.runAt ≤ now ∨ job.state = .scheduled)

-- A call is regular if its tokens have been granted and its jobs are read from the broker.
def Regular (s : Session) : BrokerCall → Prop
  | .enqueue job now                    => Enqueues s.redis job now
  | .heartbeat _ leaseToken _ _         => leaseToken ∈ s.granted
  | .complete job leaseToken _ _        => leaseToken ∈ s.granted ∧ SameQueue job
  | .fail job leaseToken _ _ _          => leaseToken ∈ s.granted ∧ SameQueue job
  | .requeueThrottled job leaseToken .. => leaseToken ∈ s.granted ∧ SameQueue job
  | .retry ..                           => False
  | .cancelLoaded jobID job _           => (s.redis.jobs jobID).map jobFromHash = some job
  | _                                   => True
where
  SameQueue (job : Job) : Prop :=
    (s.redis.jobs job.id).all (job.queue = ·.queue)

-- No delay in a batch of expired leases is zero times infinity.
def DelaysAreNumbers (b : RedisBroker) (s : Session) : BrokerCall → Prop
  | .recoverExpired limit now =>
    ∀ j ∈ (s.redis.zsets .activeLeases).rangeByScore (.ofInt now.unixMilli) limit,
      (s.redis.jobs j).all fun h => ¬(b.baseRetryDelay.milliseconds = 0 ∧ 1025 ≤ h.attempts ∧
        h.attempts < h.maxAttempts.getD 1 ∧ h.cancelRequested = false)
  | _ => True

variable {b : RedisBroker} {s : Session} {c : BrokerCall} {cs : List BrokerCall}

-- Tokens are hexadecimal digests, so none of them is the empty text of a job without a lease.
theorem granted_ne_empty_step (hg : ∀ t ∈ s.granted, t ≠ "") : ∀ t ∈ (s.step b c).granted, t ≠ "" := by
  cases c
  case dequeue workerID queues ttl now =>
    simp only [step, List.mem_append, or_imp, forall_and]
    refine ⟨hg, ?_⟩
    apply dequeueLua_rule (P := fun _ => True) (b := b)
      (Q := fun _ res => ∀ t ∈ grantedBy (.dequeue workerID queues ttl now) (.ok res), t ≠ "")
    all_goals simp [grantedBy]
  all_goals simpa [step, grantedBy] using hg

-- The invariant of regular runs.
structure Sound (s : Session) : Prop where
  placement : Placement s.redis
  granted   : ∀ t ∈ s.granted, t ≠ ""

namespace Sound

theorem initial : Sound initial where
  placement := .empty
  granted   := by simp [Session.initial]

theorem step (hs : Sound s) (hr : s.Regular c) (hd : s.DelaysAreNumbers b c) :
    Sound (s.step b c) where
  granted   := granted_ne_empty_step hs.granted
  placement := by
    have hn {t : Token} := hs.granted t
    have hp := hs.placement
    cases c
    case enqueue job now =>
      cases hr
      case submit ha builtAt req hb hd =>
        refine hp.enqueue (by simp [Redis.place, ha]) (by rw [hb]; rfl) ?_
        have hs := buildJob_state builtAt req job.id
        rw [← hb] at hs
        obtain h | h | h := hs
        · exact .inr <| .inr h
        · exact .inr <| .inl h
        · exact .inl ⟨h, hd h⟩
      case release h hj hb ht hq =>
        refine hp.enqueue (by simp [Redis.place, hj, JobHash.place, hb]) ht ?_
        exact hq.imp_right .inl
    case loadJob          => exact hp
    case dequeue          => exact hp.dequeueLua
    case heartbeat        => exact hp.heartbeatLua
    case complete         => exact hp.completeLua (hn hr.left)
    case fail             =>
      have hq := Option.all_eq_true _ _ |>.mp hr.right
      exact hp.failLua (hn hr.left) fun h hj => of_decide_eq_true <| hq h hj
    case requeueThrottled => exact hp.throttleLua (hn hr.left)
    case activateDue      => exact hp.activateDueLua
    case recoverExpired   =>
      refine hp.recoverExpiredLua fun j hm h hj hc ha hn => ?_
      have hd := of_decide_eq_true <| Option.all_eq_true _ _ |>.mp (hd j hm) h hj
      obtain ⟨hb, ha'⟩ := retryAt_eq_nan_iff.mp hn
      exact hd ⟨hb, ha', ha, hc⟩
    case retry            => exact hr.elim
    case cancelLoaded     =>
      obtain ⟨h, hj, he⟩ := Option.map_eq_some_iff.mp hr
      exact he ▸ hp.cancelLoaded hj

end Sound

theorem sound_of_regular
    (hg : Run.Guarded (step b) (fun s c => s.Regular c ∧ s.DelaysAreNumbers b c) .initial cs) :
    Sound (Run.last (step b) .initial cs) :=
  hg.invariant (fun _ _ hs hc => hs.step hc.left hc.right) .initial

-- Every job is exactly where its state says, in every state of a regular run.
theorem placed_of_regular {j : JobID} {p : Place}
    (hg : Run.Guarded (step b) (fun s c => s.Regular c ∧ s.DelaysAreNumbers b c) .initial cs) :
    (Run.last (step b) .initial cs).redis.occurrences j p =
      if (Run.last (step b) .initial cs).redis.place j = some p then 1 else 0 :=
  (sound_of_regular hg).placement.placed j p

-- A job is submitted, leased, kept alive and completed.
theorem placed_of_regular_sample :
    let now : Time := .ofUnixMilli 1700000000000
    let job := buildJob now (.plain "email.send") "job-1"
    let token := "5567c106259ceacb00ef1701815b187dca3f70c3"
    let cs := [.enqueue job now, .dequeue "worker-1" [] (30 * Duration.second) now,
      .heartbeat "job-1" token (30 * Duration.second) (now + 10 * Duration.second),
      .recoverExpired 200 (now + 35 * Duration.second),
      .complete job token "done" (now + 36 * Duration.second)]
    (Run.last (step .sample) .initial cs).redis.occurrences "job-1" (.zset .activeLeases) =
      if (Run.last (step .sample) .initial cs).redis.place "job-1" = some (.zset .activeLeases)
      then 1 else 0 :=
  placed_of_regular ⟨⟨.submit rfl _ _ rfl (fun _ => le_rfl), trivial⟩, ⟨trivial, trivial⟩,
    ⟨by unfold Regular; decide, trivial⟩, ⟨trivial, by unfold DelaysAreNumbers; decide⟩,
    ⟨by unfold Regular Regular.SameQueue; decide, trivial⟩, trivial⟩

end Session

-- A broker whose only job is in the given collections, and which retries without any delay.
namespace Impatient

open RedisBroker

def redis (h : JobHash) (lists : ListKey → List JobID) (zsets : ZSetKey → SortedSet JobID Score) :
    Redis where
  jobs  := Function.update (fun _ => none) "job-1" (some h)
  lists := lists
  zsets := zsets

def queued (h : JobHash) : Redis :=
  redis h (Function.update (fun _ => []) (.ready "default" 5) ["job-1"]) (fun _ => ∅)

def inZSet (h : JobHash) (z : ZSetKey) (s : Score) : Redis :=
  redis h (fun _ => []) (Function.update (fun _ => ∅) z (.add ∅ "job-1" s))

def nowhere (h : JobHash) : Redis :=
  redis h (fun _ => []) (fun _ => ∅)

variable {b : RedisBroker} {h : JobHash} {n m : Int} {z : ZSetKey} {s : Score}

theorem jobs {l zs} : (redis h l zs).jobs "job-1" = some h := by
  simp [redis]

theorem hset {l zs} {f : JobHash → JobHash} : (redis h l zs).hset "job-1" f = redis (f h) l zs := by
  simp [redis, Redis.hset]

theorem zadd : (nowhere h).zadd z "job-1" s = inZSet h z s := by
  simp [nowhere, inZSet, redis, Redis.zadd]

theorem zrem : (inZSet h z s).zrem z "job-1" = nowhere h := by
  simp [inZSet, nowhere, redis, Redis.zrem]

theorem score? : (((inZSet h z s).zsets z).score? "job-1") = some s := by
  simp [inZSet, redis]

theorem range {t : Score} (hs : s ≤ t) :
    ((inZSet h z s).zsets z).rangeByScore t 100 = ["job-1"] := by
  simp [inZSet, redis, SortedSet.rangeByScore, SortedSet.add, hs]

theorem lpush : (nowhere h).lpush (.ready "default" 5) "job-1" = queued h := by
  simp [nowhere, queued, redis, Redis.lpush, Redis.lset]

theorem lpop : (queued h).lset (.ready "default" 5) [] = nowhere h := by
  simp [nowhere, queued, redis, Redis.lset]

theorem dequeue (hs : h.state.isRunnable) :
    (b.dequeueLua "worker-1" 30000 n (readyKeysForQueues ["default"]) (queued h)).1 =
    inZSet (h.lease "worker-1" (b.leaseTokenOf "worker-1" "job-1" n) 30000 n) .activeLeases
      (.ofInt (n + 30000)) := by
  have hj : (queued h).jobs "job-1" = some h := jobs
  have hl (q) (p) : (queued h).lists (.ready q p) = if q = "default" ∧ p = 5 then ["job-1"] else [] := by
    simp [queued, redis, Function.update_apply]
  simp [readyKeysForQueues, dequeueLua, hl, hj, hs, lpop, lease]
  simp only [nowhere, hset]
  exact zadd


theorem recoverExpired (hm : n ≤ m) :
    (b.recoverExpiredLua 100 m (inZSet h .activeLeases (.ofInt n))).1 =
    (b.recover m "job-1" h (nowhere h)).1 := by
  have hs : (Score.ofInt n) ≤ .ofInt m := by simpa [Score.ofInt] using hm
  have hj : (inZSet h .activeLeases (.ofInt n)).jobs "job-1" = some h := jobs
  simp only [recoverExpiredLua, range hs, recoverAll, score?, Option.isSome_some, if_true, hj, zrem]
  generalize b.recover m "job-1" h (nowhere h) = x
  obtain ⟨_, res⟩ := x
  cases res <;> rfl

theorem retryAt_eq (hb : b.baseRetryDelay.milliseconds = 0) (hc : 0 ≤ b.maxRetryDelay.milliseconds)
    (ha : h.attempts < 1025) (hm : m.natAbs < 2 ^ 64) : b.retryAt m h.attempts = .int m := by
  have hp : (if h.attempts - 1 < 0 then 0 else h.attempts - 1).toNat < 1024 := by
    split <;> omega
  simp only [retryAt, retryDelay, hb, Double.zero_mul_pow2 hp]
  simp [not_lt.mpr hc, Double.ofInt_eq_int hm]

theorem activate (hq : h.queue = "default") (hp : h.priority = 5) : 
    (activateDueLua 100 n (inZSet h .delayed (.ofInt n))).1 = queued (h.activate n) := by
  have hj : (inZSet h .delayed (.ofInt n)).jobs "job-1" = some h := jobs
  simp [activateDueLua, range le_rfl, activateAll, score?, RedisBroker.activate, hj, zrem, hq, hp]
  simp only [nowhere, hset]
  exact lpush


-- Each lease of the job runs for 30 seconds until it is recovered, and the job is activated at once.
def time (i : Nat) : Time :=
  .ofUnixMilli (1700000000000 + i * 30000)

def job : Job :=
  buildJob (time 0) { JobRequest.plain "email.send" with maxAttempts := 2000 } "job-1"

def expire (now later : Time) : List BrokerCall :=
  [.dequeue "worker-1" ["default"] (30 * Duration.second) now, .recoverExpired 100 later]

def cycles : Nat → List BrokerCall
  | 0     => [.enqueue job (time 0)]
  | i + 1 => cycles i ++ expire (time i) (time (i + 1)) ++ [.activateDue 100 (time (i + 1))]

def broker (sha1 : SHA1) : RedisBroker where
  sha1           := sha1
  baseRetryDelay := 0
  maxRetryDelay  := 15 * Duration.minute

-- The job has been attempted `i` times.
structure Attempted (i : Nat) (h : JobHash) : Prop where
  attempts    : h.attempts = i
  maxAttempts : h.maxAttempts = some 2000
  uncanceled  : h.cancelRequested = false
  queue       : h.queue = "default"
  priority    : h.priority = 5

section

variable (sha1 : SHA1) {i : Nat} {k : Session} {now later : Time}

theorem last_expire (hk : k.redis = queued h) (hs : h.state = .queued) (ha : Attempted i h)
    (ht : now.unixMilli + 30000 ≤ later.unixMilli) : ∃ h',
    Attempted (i + 1) h' ∧ (Run.last (Session.step (broker sha1)) k (expire now later)).redis =
      ((broker sha1).recover later.unixMilli "job-1" h' (nowhere h')).1 := by
  have hl : (30 * Duration.second).milliseconds = 30000 := by decide
  have hd := dequeue (b := broker sha1) (n := now.unixMilli) (h := h) (by simp [hs, JobState.isRunnable])
  simp only [expire, Run.last, List.foldl, Session.step, exec, Prod.map_fst, id, hk, hl, hd]
  refine ⟨_, ?_, recoverExpired ht⟩
  constructor <;> simp [JobHash.lease, ha.attempts, ha.maxAttempts, ha.uncanceled, ha.queue, ha.priority]

theorem last_cycle (hk : k.redis = queued h) (hs : h.state = .queued) (ha : Attempted i h) (hi : i < 1024)
    (ht : now.unixMilli + 30000 ≤ later.unixMilli) (hb : later.unixMilli.natAbs < 2 ^ 64) :
    ∃ h', h'.state = .queued ∧ Attempted (i + 1) h' ∧
      (Run.last (Session.step (broker sha1)) k (expire now later ++ [.activateDue 100 later])).redis =
        queued h' := by
  have ⟨h', ha', he⟩ := last_expire sha1 hk hs ha ht
  have hlt : h'.attempts < 2000 := by rw [ha'.attempts]; omega
  have hr : (broker sha1).retryAt later.unixMilli h'.attempts = .int later.unixMilli :=
    retryAt_eq (by simp [broker]; decide) (by simp [broker]; decide) (by rw [ha'.attempts]; omega) hb
  have hc : ((broker sha1).recover later.unixMilli "job-1" h' (nowhere h')).1 =
      inZSet (h'.retryExpired (storedMillis (.int later.unixMilli)) later.unixMilli) .delayed
        (.ofInt later.unixMilli) := by
    rw [← zadd]
    simp [RedisBroker.recover, ha'.uncanceled, ha'.maxAttempts, hlt, hr, Double.toScore, nowhere, hset,
      Score.ofInt]
  refine ⟨(h'.retryExpired (storedMillis (.int later.unixMilli)) later.unixMilli).activate
    later.unixMilli, rfl, ?_, ?_⟩
  · constructor
    all_goals simp [JobHash.activate, JobHash.retryExpired, ha'.attempts, ha'.maxAttempts,
      ha'.uncanceled, ha'.queue, ha'.priority]
  · simp only [Run.last, List.foldl_append, List.foldl, Session.step, exec, Prod.map_fst, id] at he ⊢
    rw [he, hc]
    exact activate ha'.queue ha'.priority

theorem time_succ (i : Nat) : (time i).unixMilli + 30000 ≤ (time (i + 1)).unixMilli := by
  simp [time]
  omega

theorem time_lt (hi : i ≤ 1025) : (time i).unixMilli.natAbs < 2 ^ 64 := by
  simp [time]
  omega

theorem last_cycles (hi : i ≤ 1024) : ∃ h, h.state = .queued ∧ Attempted i h ∧
    (Run.last (Session.step (broker sha1)) .initial (cycles i)).redis = queued h := by
  induction i
  case zero      =>
    refine ⟨jobHash job, by decide, ⟨by decide, by decide, by decide, by decide, by decide⟩, ?_⟩
    have hj : job.id = "job-1" := by decide
    have hq : job.queue = "default" := by decide
    have hp : job.priority = 5 := by decide
    have hs : job.state = .queued := by decide
    have ht : ¬time 0 < job.runAt := by decide
    simp only [cycles, Run.last, List.foldl, Session.step, exec, RedisBroker.enqueue, hj, hq, hp, hs, ht]
    simp [Session.initial, queued, redis, Redis.hset, Redis.empty, Redis.lpush, Redis.lset]
  case succ i hd =>
    obtain ⟨h, hs, ha, he⟩ := hd (by omega)
    obtain ⟨h', hs', ha', he'⟩ := last_cycle sha1 he hs ha (by omega) (time_succ i) (time_lt (by omega))
    refine ⟨h', hs', ha', ?_⟩
    simpa [cycles, Run.last] using he'

theorem regular_cycles :
    Run.Guarded (Session.step (broker sha1)) Session.Regular .initial (cycles i) := by
  induction i
  case zero      => exact ⟨.submit rfl (time 0) _ rfl (fun _ => le_rfl), trivial⟩
  case succ i hi => simp [cycles, expire, Run.Guarded.append, Run.Guarded, Session.Regular, hi]

theorem lost (hi : i = 1024) : ∃ h, h.state = .retrying ∧
    (Run.last (Session.step (broker sha1)) .initial (cycles i ++ expire (time i) (time (i + 1)))).redis = nowhere h := by
  have ⟨h, hs, ha, he⟩ := last_cycles sha1 hi.le
  have ⟨h', ha', he'⟩ := last_expire sha1 he hs ha (time_succ i)
  have hn : (broker sha1).retryAt (time (i + 1)).unixMilli h'.attempts = .nan :=
    retryAt_eq_nan_iff.mpr ⟨by simp [broker]; decide, by rw [ha'.attempts]; omega⟩
  have hlt : h'.attempts < 2000 := by rw [ha'.attempts]; omega
  refine ⟨h'.retryExpired 0 (time (i + 1)).unixMilli, rfl, ?_⟩
  simp only [Run.last, List.foldl_append] at he' ⊢
  rw [he']
  simp [RedisBroker.recover, ha'.uncanceled, ha'.maxAttempts, hlt, hn, Double.toScore, storedMillis, nowhere, hset]

end

-- A job may be retried without any delay until the delay is not a number. Then it is lost.
theorem not_placed_of_regular : ∃ (b : RedisBroker) (cs : List BrokerCall),
    Run.Guarded (Session.step b) Session.Regular .initial cs ∧
    ¬∀ j p, (Run.last (Session.step b) .initial cs).redis.occurrences j p =
      if (Run.last (Session.step b) .initial cs).redis.place j = some p then 1 else 0 := by
  obtain ⟨i, hi⟩ : ∃ i, i = 1024 := ⟨_, rfl⟩
  refine ⟨broker .sample, cycles i ++ expire (time i) (time (i + 1)), ?_, fun hp => ?_⟩
  · simp [Run.Guarded.append, regular_cycles, expire, Run.Guarded, Session.Regular]
  · obtain ⟨h, hs, he⟩ := lost .sample hi
    have hp := hp "job-1" (.zset .delayed)
    rw [he] at hp
    simp [nowhere, redis, Redis.occurrences, Redis.place, JobHash.place, hs] at hp

end Impatient
end JobPlatform
