import JobPlatform.Library.Run
import JobPlatform.Queue.Effects
import JobPlatform.Service.Manager

namespace JobPlatform

-- The broker together with the jobs which have been canceled since they were last retried by an operator.
structure Cancellation where
  redis    : Redis
  canceled : List JobID

namespace Cancellation

open RedisBroker

def start (r : Redis) : Cancellation where
  redis    := r
  canceled := []

def step (b : RedisBroker) (s : Cancellation) (c : BrokerCall) : Cancellation where
  redis    := (b.exec s.redis c).1
  canceled := match c with
    | .cancelLoaded jobID _ _ => jobID :: s.canceled
    | .retry job _            => s.canceled.filter (· ≠ job.id)
    | _                       => s.canceled

-- A job in such a state does not run again by itself.
def Settled (s : JobState) : Bool :=
  s = .active ∨ s = .completed ∨ s = .failed ∨ s = .canceled

def Holds (r : Redis) (j : JobID) (leaseToken : Token) : Prop :=
  (r.jobs j).any (·.leaseToken = leaseToken)

def Canceled (r : Redis) (j : JobID) : Prop :=
  (r.jobs j).any (·.state = .canceled)

-- If the second half of `Cancel` only leaves a note, the job has not been put back into a queue meanwhile. A
-- canceled job is not released, and its worker neither retries nor throttles it. If its worker has leased it
-- while it was canceled, it does not end it either.
def Allowed (s : Cancellation) : BrokerCall → Prop
  | .cancelLoaded jobID job _ => isCancellable job.state = false →
    (s.redis.jobs jobID).any (Settled ·.state) ∧ (s.redis.zsets .delayed).score? jobID = none
  | .enqueue job _ => job.id ∉ s.canceled
  | .complete job leaseToken _ _ => job.id ∈ s.canceled → Holds s.redis job.id leaseToken →
    ¬Canceled s.redis job.id
  | .fail job leaseToken _ retryAt _ => job.id ∈ s.canceled → Holds s.redis job.id leaseToken →
    ¬Canceled s.redis job.id ∧ retryAt = none
  | .requeueThrottled job leaseToken .. => job.id ∈ s.canceled → ¬Holds s.redis job.id leaseToken
  | _ => True

-- What is canceled remains so until an operator retries it, and no worker gets a job to which this applies.
def Sticks (b : RedisBroker) (s : Cancellation) (c : BrokerCall) : Prop :=
  (∀ j ∈ s.canceled, j ∈ (s.step b c).canceled → Canceled s.redis j → Canceled (s.step b c).redis j) ∧
  ∀ workerID queues leaseTTL now x, c = .dequeue workerID queues leaseTTL now →
    (b.exec s.redis (.dequeue workerID queues leaseTTL now)).2 = .ok (some x) → x.1 ∉ s.canceled

-- Nothing brings the job back to its queue.
structure Stopped (r : Redis) (j : JobID) (h : JobHash) : Prop where
  hash      : r.jobs j = some h
  requested : h.cancelRequested
  settled   : Settled h.state
  waiting   : (r.zsets .delayed).score? j = none

-- The job is still stopped, and canceled if it has been so with the hash `h`.
def Remains (r : Redis) (j : JobID) (h : JobHash) : Prop :=
  ∃ h', Stopped r j h' ∧ (h.state = .canceled → h'.state = .canceled)

instance Allowed.decidable {s : Cancellation} : (c : BrokerCall) → Decidable (s.Allowed c)
  | .enqueue ..          => inferInstanceAs (Decidable (_ ∉ _))
  | .loadJob ..          => .isTrue trivial
  | .dequeue ..          => .isTrue trivial
  | .heartbeat ..        => .isTrue trivial
  | .complete ..         => inferInstanceAs (Decidable (_ → _ = true → ¬_ = true))
  | .fail ..             => inferInstanceAs (Decidable (_ → _ = true → ¬_ = true ∧ _))
  | .requeueThrottled .. => inferInstanceAs (Decidable (_ → ¬_ = true))
  | .activateDue ..      => .isTrue trivial
  | .recoverExpired ..   => .isTrue trivial
  | .retry ..            => .isTrue trivial
  | .cancelLoaded ..     => inferInstanceAs (Decidable (_ → _ ∧ _))

-- The jobs for which the second half of `Cancel` has succeeded.
def Canceling : Protocol Call Call.Resp where
  State        := List JobID
  Allows _ _   := True
  Expected _ _ := True
  next q c res := match c, res with
    | .broker (.cancelLoaded jobID _ _), .ok () => jobID :: q
    | _,                                 _      => q

-- `CancelJob` does not succeed without the second half of `Cancel`.
theorem cancelJob_canceling {jobID : JobID} {q : List JobID} :
    (Manager.cancelJob jobID).Follows Canceling (fun res (q' : List JobID) => res.isOk → jobID ∈ q') q := by
  refine ⟨trivial, fun res _ => ?_⟩
  match res with
  | .error _ => exact nofun
  | .ok job  =>
    refine ⟨trivial, fun res _ => ?_⟩
    match res with
    | .error _   => exact nofun
    | .ok loaded =>
      refine ⟨trivial, fun now _ => ⟨trivial, fun res _ => ?_⟩⟩
      match res with
      | .error _ => exact nofun
      | .ok ()   =>
        refine ⟨trivial, fun now _ => ⟨trivial, fun res _ => ?_⟩⟩
        match res with
        | .error _ => exact nofun
        | .ok ()   => exact fun _ => List.mem_cons_self

variable {b : RedisBroker} {r r' : Redis} {j i : JobID} {h h' : JobHash} {job : Job} {leaseToken : Token}
         {now ttl : Int} {body : Redis → Redis} {f : JobHash → JobHash}

theorem Stopped.remains (hs : Stopped r j h) : Remains r j h :=
  ⟨h, hs, id⟩

theorem Stopped.of_unchanged (hs : Stopped r j h) (hu : r.Unchanged j r') : Stopped r' j h where
  hash      := hu.jobs.trans hs.hash
  requested := hs.requested
  settled   := hs.settled
  waiting   := (hu.score .delayed).trans hs.waiting

theorem Stopped.canceled_iff (hs : Stopped r j h) : Canceled r j ↔ h.state = .canceled := by
  simp [Canceled, hs.hash]

theorem Stopped.not_runnable (hs : Stopped r j h) : h.state.isRunnable = false := by
  have hs := hs.settled
  cases hc : h.state <;> simp [hc, Settled, JobState.isRunnable] at hs ⊢

-- The fields of the hash change, but not those which stop the job.
theorem Stopped.hset (hs : Stopped r j h) (hc : (f h).cancelRequested) (hf : Settled (f h).state) :
    Stopped (r.hset j f) j (f h) where
  hash      := by simp [hs.hash]
  requested := hc
  settled   := hf
  waiting   := hs.waiting

theorem Stopped.zrem (hs : Stopped r j h) : Stopped (r.zrem .activeLeases i) j h where
  hash      := hs.hash
  requested := hs.requested
  settled   := hs.settled
  waiting   := by simpa [Redis.zrem_score?] using hs.waiting

theorem Stopped.lpush {k : ListKey} (hs : Stopped r j h) : Stopped (r.lpush k i) j h where
  hash      := hs.hash
  requested := hs.requested
  settled   := hs.settled
  waiting   := hs.waiting

-- The scripts that end a lease are rejected, or they do so while the job is not canceled.
theorem Stopped.endLease (hs : Stopped r j h) (hu : j ≠ i → ∀ r : Redis, r.Unchanged j (body r))
    (hb : j = i → h.leaseToken = leaseToken →
      ∀ r : Redis, Stopped r j h → h.state ≠ .canceled ∧ ∃ h', Stopped (body r) j h') :
    Remains (RedisBroker.endLease i leaseToken body r).1 j h := by
  apply endLease_rule (Q := fun x => Remains x.1 j h) <;> dsimp only
  case rejected => exact hs.remains
  case accepted =>
    intro h' hj ht
    by_cases hi : j = i
    case neg => exact (hs.of_unchanged (.trans (.zrem hi) (hu hi _))).remains
    case pos =>
      subst hi
      cases hs.hash.symm.trans hj
      obtain ⟨hn, h', hs'⟩ := hb rfl ht _ hs.zrem
      exact ⟨h', hs', fun hc => absurd hc hn⟩

theorem Stopped.completeLua {result : String} (hs : Stopped r j h)
    (hc : j = job.id → h.leaseToken = leaseToken → h.state ≠ .canceled) :
    Remains (RedisBroker.completeLua job leaseToken now result r).1 j h := by
  refine hs.endLease (fun hi _ => .hset hi) fun hi ht r hs => ⟨hc hi ht, h.complete job now result, ?_⟩
  exact hi ▸ hs.hset hs.requested rfl

theorem Stopped.failLua {errMessage : String} {retryAt : Option Int} (hs : Stopped r j h)
    (hc : j = job.id → h.leaseToken = leaseToken → h.state ≠ .canceled ∧ retryAt = none) :
    Remains (RedisBroker.failLua job leaseToken errMessage retryAt now r).1 j h := by
  refine hs.endLease (fun hi r => ?_) fun hi ht r hs => ⟨(hc hi ht).left, h.fail errMessage now, ?_⟩
  case refine_1 =>
    cases retryAt
    case none   => exact .trans (.hset hi) (.lpush hi)
    case some _ => exact .trans (.hset hi) (.zadd hi)
  case refine_2 =>
    rw [(hc hi ht).right]
    exact hi ▸ (hs.hset hs.requested rfl).lpush

theorem Stopped.throttleLua {reason : String} {retryAt : Int} (hs : Stopped r j h)
    (hc : j = job.id → h.leaseToken ≠ leaseToken) :
    Remains (RedisBroker.throttleLua job leaseToken now reason retryAt r).1 j h :=
  hs.endLease (fun hi _ => .trans (.hset hi) (.zadd hi)) fun hi ht => absurd ht (hc hi)

theorem Stopped.heartbeatLua (hs : Stopped r j h) :
    Remains (RedisBroker.heartbeatLua i leaseToken ttl now r).1 j h := by
  apply heartbeatLua_rule (Q := fun x => Remains x.1 j h) <;> dsimp only
  case rejected => exact hs.remains
  case accepted =>
    intro h' hj ht ha
    by_cases hi : j = i
    case neg => exact (hs.of_unchanged (renew_unchanged hi)).remains
    case pos =>
      subst hi
      cases hs.hash.symm.trans hj
      have hr : Stopped (r.hset j (·.renew ttl now)) j (h.renew ttl now) := hs.hset hs.requested hs.settled
      refine ⟨_, ⟨hr.hash, hr.requested, hr.settled, ?_⟩, fun hc => hc⟩
      simpa [renew, Redis.zadd_score?] using hs.waiting

-- No entry of the job is taken for one that can be leased.
theorem Stopped.dequeueLua {workerID : WorkerID} {keys : List ListKey} (hs : Stopped r j h) :
    Stopped (b.dequeueLua workerID ttl now keys r).1 j h ∧
    ∀ x, (b.dequeueLua workerID ttl now keys r).2 = some x → x.1 ≠ j := by
  apply dequeueLua_rule (P := fun r => Stopped r j h)
    (Q := fun r res => Stopped r j h ∧ ∀ x, res = some x → x.1 ≠ j)
  case hr    => exact hs
  case none  => exact fun r hs => ⟨hs, fun _ hx => nomatch hx⟩
  case drop  => exact fun r k i rest hs _ _ _ => ⟨hs.hash, hs.requested, hs.settled, hs.waiting⟩
  case lease =>
    intro r k i rest h' hs _ _ hi hr
    have hne : j ≠ i := by
      intro he
      subst he
      cases hs.hash.symm.trans hi
      exact absurd hr (by simp [hs.not_runnable])
    have hs' : Stopped (r.lset k rest) j h := ⟨hs.hash, hs.requested, hs.settled, hs.waiting⟩
    refine ⟨hs'.of_unchanged (lease_unchanged hne), fun x hx => ?_⟩
    cases hx
    exact hne.symm

theorem Stopped.activateDueLua {limit : Int} (hs : Stopped r j h) :
    Stopped (RedisBroker.activateDueLua limit now r).1 j h := by
  apply activateAll_rule (P := fun r => Stopped r j h) SortedSet.rangeByScore_nodup
  case hr => exact hs
  case hs =>
    intro r' i _ _ hz hs
    have hne : j ≠ i := by
      intro he
      rw [← he, hs.waiting] at hz
      cases hz
    exact hs.of_unchanged (activate_unchanged hne)

-- The script cancels the job if it recovers it.
theorem Stopped.recoverExpiredLua {limit : Int} (hs : Stopped r j h) :
    Remains (b.recoverExpiredLua limit now r).1 j h := by
  apply recoverAll_rule (P := fun r => Remains r j h) SortedSet.rangeByScore_nodup
  case hr      => exact hs.remains
  case absent  =>
    intro r' i _ _ _ ⟨h', hs, hc⟩
    exact ⟨h', hs.zrem, hc⟩
  case present =>
    intro r' i g _ _ _ hi ⟨h', hs, hc⟩
    by_cases he : j = i
    case neg => exact ⟨h', hs.zrem.of_unchanged (recover_unchanged he), hc⟩
    case pos =>
      subst he
      obtain rfl : h' = g := Option.some.inj (hs.hash.symm.trans hi)
      have hr : b.recover now j h' (r'.zrem .activeLeases j) =
          ((r'.zrem .activeLeases j).hset j (·.cancelExpired now), .ok ⟨j, .canceled, none⟩) := by
        simp [recover, hs.requested]
      rw [hr]
      refine ⟨h'.cancelExpired now, ?_, fun _ => rfl⟩
      exact Stopped.hset (f := (·.cancelExpired now)) hs.zrem hs.requested rfl

theorem cancelLoaded_waiting : ((RedisBroker.cancelLoaded j job now r).zsets .delayed).score? j =
    if isCancellable job.state then none else (r.zsets .delayed).score? j := by
  unfold RedisBroker.cancelLoaded
  dsimp only
  split
  case isTrue  => simp [Redis.zrem_score?]
  case isFalse => rfl

theorem Stopped.cancelLoaded (hs : Stopped r j h) : Remains (RedisBroker.cancelLoaded i job now r) j h := by
  by_cases hi : j = i
  case neg => exact (hs.of_unchanged (cancelLoaded_unchanged hi)).remains
  case pos =>
    subst hi
    have hj : (RedisBroker.cancelLoaded j job now r).jobs j = _ := cancelLoaded_jobs
    refine ⟨_, ⟨hj, ?_, ?_, ?_⟩, ?_⟩
    · cases isCancellable job.state <;> rfl
    · cases isCancellable job.state
      case false => exact hs.hash ▸ hs.settled
      case true  => rfl
    · rw [cancelLoaded_waiting, hs.waiting, ite_self]
    · cases isCancellable job.state
      case false => simp [hs.hash, JobHash.requestCancel]
      case true  => exact fun _ => rfl

-- The second half of `Cancel` stops the job.
theorem stopped_of_cancel (hc : isCancellable job.state = false →
      (r.jobs j).any (Settled ·.state) ∧ (r.zsets .delayed).score? j = none) :
    ∃ h, Stopped (RedisBroker.cancelLoaded j job now r) j h := by
  have hj : (RedisBroker.cancelLoaded j job now r).jobs j = _ := cancelLoaded_jobs
  refine ⟨_, hj, ?_, ?_, ?_⟩
  · cases isCancellable job.state <;> rfl
  · cases hs : isCancellable job.state
    case true  => rfl
    case false =>
      have ⟨h, hh, hs⟩ := Option.any_eq_true _ _ |>.mp (hc hs).left
      simpa [hh, JobHash.requestCancel] using hs
  · rw [cancelLoaded_waiting]
    split
    case isTrue  => rfl
    case isFalse hn => exact (hc (by simpa using hn)).right

section

variable {s : Cancellation} {c : BrokerCall} {cs : List BrokerCall}

-- A job that is canceled already remains so.
theorem remains_of_allowed (hs : Stopped s.redis j h) (hj : j ∈ s.canceled) (ha : s.Allowed c)
    (hr : j ∈ (s.step b c).canceled) : Remains (b.exec s.redis c).1 j h := by
  have he := hs.canceled_iff
  have held {t : Token} (ht : h.leaseToken = t) : Holds s.redis j t := by simp [Holds, hs.hash, ht]
  cases c
  case enqueue job now          =>
    have hn : j ≠ job.id := fun he => ha (he ▸ hj)
    exact (hs.of_unchanged (enqueue_unchanged hn)).remains
  case loadJob                  => exact hs.remains
  case dequeue                  => exact hs.dequeueLua.left.remains
  case heartbeat                => exact hs.heartbeatLua
  case complete                 =>
    refine hs.completeLua fun hi ht hc => ?_
    exact ha (hi ▸ hj) (hi ▸ held ht) (hi ▸ he.mpr hc)
  case fail                     =>
    refine hs.failLua fun hi ht => ?_
    have ha := ha (hi ▸ hj) (hi ▸ held ht)
    exact ⟨fun hc => ha.left (hi ▸ he.mpr hc), by simp [ha.right]⟩
  case requeueThrottled         =>
    refine hs.throttleLua fun hi ht => ?_
    exact ha (hi ▸ hj) (hi ▸ held ht)
  case activateDue              => exact hs.activateDueLua.remains
  case recoverExpired           => exact hs.recoverExpiredLua
  case retry job now            =>
    have hn : j ≠ job.id := by simpa using (List.mem_filter.mp hr).right
    exact (hs.of_unchanged (retry_unchanged hn)).remains
  case cancelLoaded             => exact hs.cancelLoaded

-- All canceled jobs are stopped.
def AllStopped (s : Cancellation) : Prop :=
  ∀ j ∈ s.canceled, ∃ h, Stopped s.redis j h

theorem AllStopped.step (hs : AllStopped s) (ha : s.Allowed c) : AllStopped (s.step b c) := by
  intro j hr
  by_cases hj : j ∈ s.canceled
  case pos =>
    have ⟨h, hs⟩ := hs j hj
    have ⟨h', hs, _⟩ := remains_of_allowed (b := b) hs hj ha hr
    exact ⟨h', hs⟩
  case neg =>
    cases c
    case cancelLoaded jobID job now =>
      obtain rfl := (List.mem_cons.mp hr).resolve_right hj
      exact stopped_of_cancel ha
    case retry => exact absurd (List.mem_of_mem_filter hr) hj
    all_goals exact absurd hr hj

theorem AllStopped.sticks (hs : AllStopped s) (ha : s.Allowed c) : Sticks b s c := by
  constructor
  · intro j hj hr hc
    have ⟨h, hs⟩ := hs j hj
    have ⟨h', hs', he⟩ := remains_of_allowed (b := b) hs hj ha hr
    exact hs'.canceled_iff.mpr (he (hs.canceled_iff.mp hc))
  · intro workerID queues leaseTTL now x _ hx hj
    have ⟨h, hs⟩ := hs x.1 hj
    have hd := @Stopped.dequeueLua b s.redis x.1 h now.unixMilli leaseTTL.milliseconds workerID
      (readyKeysForQueues queues) hs
    exact hd.right x (Except.ok.inj hx) rfl

-- As long as no canceled job is released, retried or throttled, nor ended by a worker which has leased it
-- while it was canceled, it remains canceled and no worker gets it.
theorem sticks_of_allowed (hg : Run.Guarded (step b) Allowed (start r) cs) :
    (∀ jobID, (Manager.cancelJob jobID).Follows Canceling
      (fun res (q : List JobID) => res.isOk → jobID ∈ q) []) ∧
    Run.Guarded (step b) (Sticks b) (start r) cs := by
  have hn : AllStopped (start r) := fun _ hj => absurd hj List.not_mem_nil
  have hs := hg.strengthen (fun _ _ => AllStopped.step) hn
  exact ⟨fun _ => cancelJob_canceling, hs.mono fun _ _ h => h.left.sticks h.right⟩

end

namespace Sample

def time (seconds : Int) : Time :=
  .ofUnixMilli 1700000000000 + seconds * Duration.second

def submitted : Job :=
  buildJob (time 0) (.plain "email.send") "job-1"

def last (cs : List BrokerCall) : Cancellation :=
  Run.last (step .sample) (start .empty) cs

-- What `Cancel` loads after the given calls.
def loaded (cs : List BrokerCall) : Job :=
  jobFromHash <| ((last cs).redis.jobs "job-1").getD .empty

def enqueued : List BrokerCall :=
  [.enqueue submitted (time 0)]

def leased : List BrokerCall :=
  enqueued ++ [.dequeue "worker-1" [] (30 * Duration.second) (time 0)]

def cancel (cs : List BrokerCall) : List BrokerCall :=
  cs ++ [.loadJob "job-1", .cancelLoaded "job-1" (loaded cs) (time 1)]

-- A queued job is canceled before a worker asks for it.
def waiting : List BrokerCall :=
  cancel enqueued ++ [.dequeue "worker-1" [] (30 * Duration.second) (time 2)]

-- An active job is canceled, and the worker retries it as its handler fails.
def retried : List BrokerCall :=
  cancel leased ++ [
    .fail submitted "5567c106259ceacb00ef1701815b187dca3f70c3" "timeout" (some (time 7)) (time 2),
    .activateDue 200 (time 8)
  ]

end Sample

theorem sticks_of_allowed_sample : Run.Guarded (step .sample) (Sticks .sample) (start .empty) Sample.waiting := by
  have hg : Run.Guarded (step .sample) Allowed (start .empty) Sample.waiting := by decide +kernel
  exact (sticks_of_allowed hg).right

-- A worker gets the job that has been canceled.
theorem not_sticks_of_retried :
    let cs := Sample.retried ++ [.dequeue "worker-2" [] (30 * Duration.second) (Sample.time 60)]
    ¬Run.Guarded (step .sample) (Sticks .sample) (start .empty) cs := by
  intro cs hg
  have hs := (Run.Guarded.snoc _).mp hg |>.right.right
  have hr : (RedisBroker.sample.exec (Sample.last Sample.retried).redis
      (.dequeue "worker-2" [] (30 * Duration.second) (Sample.time 60))).2 =
        .ok (some ("job-1", "351b5c52e7d90154362cd0180d6543d8020f25ba")) := by decide +kernel
  have hm : "job-1" ∈ (Sample.last Sample.retried).canceled := by decide +kernel
  exact hs _ _ _ _ _ rfl hr hm

end Cancellation
end JobPlatform
