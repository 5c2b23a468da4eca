import JobPlatform.Library.Run
import JobPlatform.Library.Text
import JobPlatform.Queue.Effects

namespace JobPlatform

-- What a write into the hash of a job may do that neither grants a lease nor changes its token.
structure JobHash.Wanes (h h' : JobHash) : Prop where
  token  : h'.leaseToken = "" ∨ h'.leaseToken = h.leaseToken
  active : h'.state = .active → h.state = .active ∧ h'.leaseToken = h.leaseToken

namespace JobHash.Wanes

theorem refl (h : JobHash) : h.Wanes h :=
  ⟨.inr rfl, fun hs => ⟨hs, rfl⟩⟩

theorem clear {h h' : JobHash} (ht : h'.leaseToken = "") (hs : h'.state ≠ .active) : h.Wanes h' :=
  ⟨.inl ht, fun ha => absurd ha hs⟩

end JobHash.Wanes

namespace Redis

def leased (r : Redis) (j : JobID) : Bool :=
  ((r.zsets .activeLeases).score? j).isSome

-- No lease of the job `j` is left.
structure Free (r : Redis) (j : JobID) : Prop where
  unleased : r.leased j = false
  token    : ∀ h, r.jobs j = some h → h.leaseToken = ""

-- The job `j` is granted no lease. At most, the lease of a job that is active already is renewed.
structure Wanes (j : JobID) (r r' : Redis) : Prop where
  hash  : ∀ h', r'.jobs j = some h' → ((r.jobs j).getD .empty).Wanes h'
  lease : r'.leased j → r.leased j ∨ ∃ h, r.jobs j = some h ∧ h.state = .active

variable {r r₁ r₂ r₃ : Redis} {id j : JobID} {f : JobHash → JobHash} {k : ListKey} {z : ZSetKey} {s : Score}
         {ids : List JobID}

namespace Wanes

theorem of_unchanged (h : r₁.Unchanged j r₂) : Wanes j r₁ r₂ where
  hash h' hj := by
    rw [h.jobs] at hj
    simpa [hj] using JobHash.Wanes.refl h'
  lease hl := by
    have hs := h.score .activeLeases
    exact .inl <| by simpa [leased, hs] using hl

theorem refl (j : JobID) (r : Redis) : Wanes j r r :=
  of_unchanged (.refl j r)

theorem trans (h₁ : Wanes j r₁ r₂) (h₂ : Wanes j r₂ r₃) : Wanes j r₁ r₃ where
  hash h₃ hj := by
    have hw := h₂.hash h₃ hj
    cases hj' : r₂.jobs j
    case none =>
      -- What is written into a new hash is neither active nor leased.
      simp only [hj', Option.getD_none] at hw
      have ht : h₃.leaseToken = "" := hw.token.elim id id
      exact ⟨.inl ht, fun ha => nomatch (hw.active ha).left⟩
    case some h' =>
      simp only [hj', Option.getD_some] at hw
      have hw' := h₁.hash h' hj'
      constructor
      case token =>
        match hw.token with
        | .inl ht => exact .inl ht
        | .inr ht => exact ht ▸ hw'.token
      case active =>
        intro ha
        have ⟨ha, ht⟩   := hw.active ha
        have ⟨ha', ht'⟩ := hw'.active ha
        exact ⟨ha', ht.trans ht'⟩
  lease hl := by
    match h₂.lease hl with
    | .inl hl           => exact h₁.lease hl
    | .inr ⟨h', hj, hs⟩ =>
      have ⟨hs, _⟩ := (h₁.hash h' hj).active hs
      cases hj' : r₁.jobs j
      case none   => simp [hj', JobHash.empty] at hs
      case some h => exact .inr ⟨h, rfl, by simpa [hj'] using hs⟩

theorem of_eq (hj : r₂.jobs = r₁.jobs) (hl : r₂.leased j → r₁.leased j) : Wanes j r₁ r₂ where
  hash h' hj' := by
    rw [hj] at hj'
    simpa [hj'] using JobHash.Wanes.refl h'
  lease h := .inl (hl h)

theorem hset (hf : ∀ h : JobHash, h.Wanes (f h)) : Wanes j r (r.hset id f) := by
  by_cases h : j = id
  case neg => exact of_unchanged (.hset h)
  case pos =>
    subst h
    constructor
    case lease => exact .inl
    case hash  =>
      intro h' hj
      rw [hset_jobs_self, Option.some_inj] at hj
      exact hj ▸ hf _

theorem lset : Wanes j r (r.lset k ids) :=
  of_eq rfl fun h => h

theorem lpush : Wanes j r (r.lpush k id) :=
  of_eq rfl fun h => h

theorem lrem : Wanes j r (r.lrem k id) :=
  of_eq rfl fun h => h

theorem zadd : Wanes j r (r.zadd .delayed id s) :=
  of_eq rfl fun h => by simpa [leased, zadd_score?] using h

theorem zrem : Wanes j r (r.zrem z id) :=
  of_eq rfl fun h => by
    unfold leased at h ⊢
    rw [zrem_score?] at h
    split at h
    case isTrue  => simp at h
    case isFalse => exact h

end Wanes
end Redis

namespace RedisBroker

variable {b : RedisBroker} {r r' : Redis} {j id : JobID} {job : Job} {leaseToken : Token} {body : Redis → Redis}
         {limit now : Int} {ids : List JobID}

-- No job is leased when it is passed to `Enqueue`.
def Unleased : BrokerCall → Prop
  | .enqueue job _ => job.leaseToken = "" ∧ job.state ≠ .active
  | _              => True

theorem enqueue_wanes {at' : Time} (ht : job.leaseToken = "") (hs : job.state ≠ .active) :
    r.Wanes j (enqueue job at' r) := by
  have hw (h : JobHash) : h.Wanes (jobHash job) := .clear ht hs
  unfold enqueue
  dsimp only
  split
  · exact .hset hw
  · split
    · exact .trans (.hset hw) .zadd
    · split
      · exact .trans (.hset hw) .lpush
      · exact .hset hw

theorem endLease_wanes (hb : ∀ r : Redis, r.Wanes j (body r)) : r.Wanes j (endLease id leaseToken body r).1 := by
  apply endLease_rule (Q := fun x => r.Wanes j x.1) <;> dsimp only
  case rejected => exact .refl ..
  case accepted => exact fun _ _ _ => .trans .zrem (hb _)

-- What the scripts that end a lease write does away with the token as well.
theorem endLease_free (hb : ∀ r : Redis, r.leased id = false → (body r).Free id)
    (h : (endLease id leaseToken body r).2 = true) : (endLease id leaseToken body r).1.Free id := by
  revert h
  apply endLease_rule (Q := fun x => x.2 = true → x.1.Free id) <;> dsimp only
  case rejected => exact fun h => nomatch h
  case accepted => exact fun _ _ _ _ => hb _ (by simp [Redis.leased, Redis.zrem_score?])

theorem endLease_token (h : (endLease id leaseToken body r).2 = true) :
    ∃ h, r.jobs id = some h ∧ h.leaseToken = leaseToken := by
  revert h
  apply endLease_rule (Q := fun x => x.2 = true → ∃ h, r.jobs id = some h ∧ h.leaseToken = leaseToken)
  case rejected => exact fun h => nomatch h
  case accepted => exact fun h hj ht _ => ⟨h, hj, ht⟩

section

variable {result errMessage reason : String} {retryAt : Option Int} {at' : Int}

theorem completeLua_wanes : r.Wanes j (completeLua job leaseToken now result r).1 :=
  endLease_wanes fun _ => .hset fun _ => .clear rfl (by nofun)

theorem failLua_wanes : r.Wanes j (failLua job leaseToken errMessage retryAt now r).1 := by
  refine endLease_wanes fun r => ?_
  cases retryAt
  case none   => exact .trans (.hset fun _ => .clear rfl (by nofun)) .lpush
  case some t => exact .trans (.hset fun _ => .clear rfl (by nofun)) .zadd

theorem throttleLua_wanes : r.Wanes j (throttleLua job leaseToken now reason at' r).1 :=
  endLease_wanes fun _ => .trans (.hset fun _ => .clear rfl (by nofun)) .zadd

theorem completeLua_token (h : (completeLua job leaseToken now result r).2 = true) :
    ∃ h, r.jobs job.id = some h ∧ h.leaseToken = leaseToken :=
  endLease_token h

theorem failLua_token (h : (failLua job leaseToken errMessage retryAt now r).2 = true) :
    ∃ h, r.jobs job.id = some h ∧ h.leaseToken = leaseToken :=
  endLease_token h

theorem throttleLua_token (h : (throttleLua job leaseToken now reason at' r).2 = true) :
    ∃ h, r.jobs job.id = some h ∧ h.leaseToken = leaseToken :=
  endLease_token h

theorem completeLua_free (h : (completeLua job leaseToken now result r).2 = true) :
    (completeLua job leaseToken now result r).1.Free job.id :=
  endLease_free (fun _ hl => ⟨hl, by simp [JobHash.complete]⟩) h

theorem failLua_free (h : (failLua job leaseToken errMessage retryAt now r).2 = true) :
    (failLua job leaseToken errMessage retryAt now r).1.Free job.id := by
  refine endLease_free (fun r hl => ?_) h
  cases retryAt
  case none   => exact ⟨hl, by simp [JobHash.fail]⟩
  case some t => exact ⟨by simpa [Redis.leased, Redis.zadd_score?] using hl, by simp [JobHash.retryAfterFailure]⟩

theorem throttleLua_free (h : (throttleLua job leaseToken now reason at' r).2 = true) :
    (throttleLua job leaseToken now reason at' r).1.Free job.id :=
  endLease_free (fun _ hl => ⟨by simpa [Redis.leased, Redis.zadd_score?] using hl, by simp [JobHash.throttle]⟩) h

end

theorem activateDueLua_wanes : r.Wanes j (activateDueLua limit now r).1 := by
  apply activateAll_rule (P := r.Wanes j) SortedSet.rangeByScore_nodup
  case hr => exact .refl ..
  case hs =>
    intro r' i _ _ _ hw
    refine .trans hw ?_
    unfold activate
    split
    · exact .zrem
    · exact .trans (.trans .zrem <| .hset fun _ => .clear rfl (by nofun)) .lpush

theorem recover_wanes {h : JobHash} : r.Wanes j (b.recover now id h r).1 := by
  apply recover_rule (Q := fun x => r.Wanes j x.1) <;> dsimp only
  case canceled => exact fun _ => .hset fun _ => .clear rfl (by nofun)
  case retrying => exact fun _ _ _ _ => .trans (.hset fun _ => .clear rfl (by nofun)) .zadd
  case aborted  => exact fun _ _ _ => .hset fun _ => .clear rfl (by nofun)
  case failed   => exact fun _ _ => .trans (.hset fun _ => .clear rfl (by nofun)) .lpush

theorem recoverExpiredLua_wanes : r.Wanes j (b.recoverExpiredLua limit now r).1 := by
  apply recoverAll_rule (P := r.Wanes j) SortedSet.rangeByScore_nodup
  case hr      => exact .refl ..
  case absent  => exact fun _ _ _ _ _ hw => hw.trans .zrem
  case present => exact fun _ _ _ _ _ _ _ hw => (hw.trans .zrem).trans recover_wanes

theorem recover_free {h : JobHash} (hl : r.leased j = false) : (b.recover now j h r).1.Free j := by
  apply recover_rule (Q := fun x => x.1.Free j)
  all_goals
    intros
    constructor
    · simpa [Redis.leased, Redis.zadd_score?] using hl
    · simp [JobHash.cancelExpired, JobHash.retryExpired, JobHash.failExpired]

-- A lease that the script takes away is not followed by a token of that lease.
theorem recoverExpiredLua_free (hl : r.leased j) (hl' : (b.recoverExpiredLua limit now r).1.leased j = false) :
    (b.recoverExpiredLua limit now r).1.Free j := by
  have h : r.Unchanged j (b.recoverExpiredLua limit now r).1 ∨ (b.recoverExpiredLua limit now r).1.Free j := by
    apply recoverAll_rule (P := fun r' => r.Unchanged j r' ∨ r'.Free j) SortedSet.rangeByScore_nodup
    case hr => exact .inl (.refl ..)
    case absent =>
      intro r' i _ _ hj hr
      by_cases hi : j = i
      case pos =>
        subst hi
        exact .inr ⟨by simp [Redis.leased, Redis.zrem_score?], by simp [hj]⟩
      case neg =>
        cases hr
        case inl hu => exact .inl (hu.trans <| .zrem hi)
        case inr hf => exact .inr ⟨by simpa [Redis.leased, Redis.zrem_score?, hi] using hf.unleased, hf.token⟩
    case present =>
      intro r' i h _ _ _ hj hr
      by_cases hi : j = i
      case pos =>
        subst hi
        exact .inr <| recover_free (by simp [Redis.leased, Redis.zrem_score?])
      case neg =>
        have hu : r'.Unchanged j (b.recover now i h (r'.zrem .activeLeases i)).1 :=
          .trans (.zrem hi) (recover_unchanged hi)
        cases hr
        case inl hr => exact .inl (hr.trans hu)
        case inr hf =>
          refine .inr ⟨?_, ?_⟩
          · have hs := hu.score .activeLeases
            simpa [Redis.leased, hs] using hf.unleased
          · have hj := hu.jobs
            simpa [hj] using hf.token
  cases h
  case inr hf => exact hf
  case inl hu =>
    have hs := hu.score .activeLeases
    simp [Redis.leased, hs] at hl hl'
    simp [hl'] at hl

theorem heartbeatLua_wanes {ttl : Int} : r.Wanes j (heartbeatLua id leaseToken ttl now r).1 := by
  apply heartbeatLua_rule (Q := fun x => r.Wanes j x.1) <;> dsimp only
  case rejected => exact .refl ..
  case accepted =>
    intro h hj _ hs
    have hw : r.Wanes j (r.hset id (·.renew ttl now)) := .hset fun _ => ⟨.inr rfl, fun ha => ⟨ha, rfl⟩⟩
    constructor
    case hash  => exact hw.hash
    case lease =>
      intro hl
      by_cases hi : j = id
      case pos => exact .inr ⟨h, hi ▸ hj, hs⟩
      case neg => exact .inl <| by simpa [renew, Redis.leased, Redis.zadd_score?, hi] using hl

theorem heartbeatLua_token {ttl : Int} (h : (heartbeatLua id leaseToken ttl now r).2 = true) :
    ∃ h, r.jobs id = some h ∧ h.leaseToken = leaseToken := by
  revert h
  apply heartbeatLua_rule (Q := fun x => x.2 = true → ∃ h, r.jobs id = some h ∧ h.leaseToken = leaseToken)
  case rejected => exact fun h => nomatch h
  case accepted => exact fun h hj ht _ _ => ⟨h, hj, ht⟩

theorem retry_wanes {at' : Time} : r.Wanes j (retry job at' r) := by
  unfold retry
  dsimp only
  split
  · have hs : r.Wanes j ((r.hset job.id (·.retry job at'.unixMilli)).hset job.id (·.schedule)) :=
      .trans (.hset fun _ => .clear rfl (by nofun)) (.hset fun _ => ⟨.inr rfl, nofun⟩)
    exact .trans (.trans hs .zadd) .lrem
  · exact .trans (.trans (.hset fun _ => .clear rfl (by nofun)) .lpush) .lrem

theorem cancelLoaded_wanes : r.Wanes j (cancelLoaded id job now r) := by
  have hs : r.Wanes j (r.hset id (·.requestCancel now)) := .hset fun _ => ⟨.inr rfl, fun ha => ⟨ha, rfl⟩⟩
  unfold cancelLoaded
  dsimp only
  split
  · exact .trans hs <| .trans .lrem <| .trans .zrem <| .trans .lrem <| .hset fun _ => ⟨.inr rfl, nofun⟩
  · exact hs

-- The lists lose some of their entries before a job is leased.
theorem dequeueLua_lease {workerID : WorkerID} {ttl : Int} {keys : List ListKey} {t : Token}
    (h : (b.dequeueLua workerID ttl now keys r).2 = some (id, t)) :
    ∃ r' : Redis, r'.jobs = r.jobs ∧ r'.zsets = r.zsets ∧
      (b.dequeueLua workerID ttl now keys r).1 = b.lease workerID ttl now id r' := by
  revert h
  apply dequeueLua_rule (P := fun r' => r'.jobs = r.jobs ∧ r'.zsets = r.zsets)
    (Q := fun r'' res => res = some (id, t) → ∃ r' : Redis, r'.jobs = r.jobs ∧ r'.zsets = r.zsets ∧
      r'' = b.lease workerID ttl now id r')
  case hr   => exact ⟨rfl, rfl⟩
  case drop => exact fun _ _ _ _ hr _ _ _ => hr
  case none => exact fun _ _ h => nomatch h
  case lease =>
    intro r' k j rest _ hr _ _ _ _ he
    have hj : j = id := congrArg Prod.fst (Option.some.inj he)
    exact ⟨r'.lset k rest, hr.left, hr.right, by rw [hj]⟩

theorem dequeueLua_none {workerID : WorkerID} {ttl : Int} {keys : List ListKey}
    (h : (b.dequeueLua workerID ttl now keys r).2 = none) :
    r.Wanes j (b.dequeueLua workerID ttl now keys r).1 := by
  revert h
  apply dequeueLua_rule (P := r.Wanes j) (Q := fun r' res => res = none → r.Wanes j r')
  case hr    => exact .refl ..
  case drop  => exact fun _ _ _ _ hw _ _ _ => hw.trans .lset
  case lease => exact fun _ _ _ _ _ _ _ _ _ _ h => nomatch h
  case none  => exact fun _ hw _ => hw

end RedisBroker

-- A lease that `Dequeue` has granted.
structure Grant where
  jobID    : JobID
  workerID : WorkerID
  millis   : Int
  deriving DecidableEq

def Grant.token (b : RedisBroker) (g : Grant) : Token :=
  b.leaseTokenOf g.workerID g.jobID g.millis

theorem Grant.token_ne_empty (g : Grant) (b : RedisBroker) : g.token b ≠ "" := by
  simp [token]

def Grant.text (g : Grant) : String :=
  g.workerID ++ ":" ++ g.jobID ++ ":" ++ toString g.millis

-- Identifiers of jobs are UUIDs, so a grant can be read off the text whose digest is its token.
theorem Grant.text_inj {g g' : Grant} (hg : ':' ∉ g.jobID.toList) (hg' : ':' ∉ g'.jobID.toList)
    (h : g.text = g'.text) : g = g' := by
  have hn (n : Int) : ':' ∉ (toString n).toList := Text.not_mem_toString (by decide) (by decide)
  have ⟨hl, hm⟩ := Text.join_inj_right (c := ':') (hn g.millis) (hn g'.millis) h
  have ⟨hw, hj⟩ := Text.join_inj_right (c := ':') hg hg' hl
  have hm := Text.toString_injective hm
  cases g
  cases g'
  simp_all

-- The broker together with the leases that it has granted so far, the most recent of them first.
structure Ledger where
  redis  : Redis
  grants : List Grant

namespace Ledger

open RedisBroker

def initial : Ledger where
  redis  := .empty
  grants := []

def grantedBy : (c : BrokerCall) → Except Error c.Resp → List Grant
  | .dequeue workerID _ _ now, .ok (some (jobID, _)) => [⟨jobID, workerID, now.unixMilli⟩]
  | _,                         _                     => []

def step (b : RedisBroker) (s : Ledger) (c : BrokerCall) : Ledger where
  redis  := (b.exec s.redis c).1
  grants := grantedBy c (b.exec s.redis c).2 ++ s.grants

-- The most recent grant of the job `j`.
def latest (s : Ledger) (j : JobID) : Option Grant :=
  s.grants.find? (·.jobID = j)

-- The job and the token with which a call refers to a lease.
def presents : BrokerCall → Option (JobID × Token)
  | .heartbeat jobID leaseToken _ _     => some (jobID, leaseToken)
  | .complete job leaseToken _ _        => some (job.id, leaseToken)
  | .fail job leaseToken _ _ _          => some (job.id, leaseToken)
  | .requeueThrottled job leaseToken .. => some (job.id, leaseToken)
  | _                                   => none

def accepted : (c : BrokerCall) → Except Error c.Resp → Bool
  | .heartbeat ..,        .ok accepted => accepted
  | .complete ..,         .ok accepted => accepted
  | .fail ..,             .ok accepted => accepted
  | .requeueThrottled .., .ok accepted => accepted
  | _,                    _            => false

-- Whether a call ends the lease that has been granted with `g`. The lease of a job which is in the
-- set of active leases is the one that has been granted last.
def ends (b : RedisBroker) (s : Ledger) (g : Grant) (c : BrokerCall) : Bool :=
  match c with
  | .heartbeat ..      => false
  | .recoverExpired .. =>
    s.latest g.jobID = some g ∧ s.redis.leased g.jobID ∧ (s.step b c).redis.leased g.jobID = false
  | c                  =>
    (presents c).any (·.2 = g.token b) ∧ accepted c (b.exec s.redis c).2

-- How often the lease of `g` ends in the course of a run.
def endings (b : RedisBroker) (g : Grant) : Ledger → List BrokerCall → Nat
  | _, []      => 0
  | s, c :: cs => (s.ends b g c).toNat + endings b g (s.step b c) cs

-- What fencing means for the run `cs`. Grants are equal if they are grants of the same job to the
-- same worker in the same millisecond.
structure Fenced (b : RedisBroker) (cs : List BrokerCall) : Prop where
  latest : ∀ g ∈ (Run.last (step b) initial cs).grants, ∀ c j, presents c = some (j, g.token b) →
    accepted c (b.exec (Run.last (step b) initial cs).redis c).2 →
    (Run.last (step b) initial cs).latest j = some g
  ended  : ∀ g, (Run.last (step b) initial cs).grants.count g = 1 → endings b g initial cs ≤ 1

-- The texts whose digests are the tokens of these grants do not collide.
def CollisionFree (b : RedisBroker) (grants : List Grant) : Prop :=
  ∀ g ∈ grants, ∀ g' ∈ grants, b.sha1.hex g.text = b.sha1.hex g'.text → g.text = g'.text

def IDsAreUUIDs (grants : List Grant) : Prop :=
  ∀ g ∈ grants, ':' ∉ g.jobID.toList

variable {b : RedisBroker} {s s' : Ledger} {c : BrokerCall} {cs : List BrokerCall} {g : Grant} {j : JobID}
         {t : Token}

-- A call either grants a lease or at most renews one.
inductive Change (b : RedisBroker) (s s' : Ledger) : Prop
  | grant (g : Grant) (grants : s'.grants = g :: s.grants)
    (token  : ∀ h, s'.redis.jobs g.jobID = some h → h.leaseToken = g.token b)
    (others : ∀ j, j ≠ g.jobID → s.redis.Wanes j s'.redis)
  | wane (grants : s'.grants = s.grants) (redis : ∀ j, s.redis.Wanes j s'.redis)

theorem step_dequeue {workerID : WorkerID} {queues : List QueueName} {ttl : Duration} {now : Time} :
    Change b s (s.step b (.dequeue workerID queues ttl now)) := by
  cases hd : (b.dequeueLua workerID ttl.milliseconds now.unixMilli (readyKeysForQueues queues) s.redis).2
  case none =>
    refine .wane ?_ fun j => dequeueLua_none hd
    simp [step, exec, hd, grantedBy]
  case some x =>
    have ⟨id, t⟩ := x
    have ⟨r, hj, hz, he⟩ := dequeueLua_lease hd
    have hr : (s.step b (.dequeue workerID queues ttl now)).redis =
      b.lease workerID ttl.milliseconds now.unixMilli id r := he
    have hw (j : JobID) : s.redis.Wanes j r := .of_eq hj fun h => by simpa [Redis.leased, hz] using h
    refine .grant ⟨id, workerID, now.unixMilli⟩ (by simp [step, exec, hd, grantedBy]) ?_ ?_
    · intro h hj
      simp only [hr, lease, Redis.zadd_jobs, Redis.hset_jobs_self, Option.some_inj] at hj
      exact hj ▸ rfl
    · intro j hi
      rw [hr]
      exact (hw j).trans <| .of_unchanged (lease_unchanged hi)

theorem step_cases (hu : Unleased c) : Change b s (s.step b c) := by
  cases c
  case dequeue          => exact step_dequeue
  case enqueue          => exact .wane rfl fun j => enqueue_wanes hu.left hu.right
  case loadJob          => exact .wane rfl fun j => .refl ..
  case heartbeat        => exact .wane rfl fun j => heartbeatLua_wanes
  case complete         => exact .wane rfl fun j => completeLua_wanes
  case fail             => exact .wane rfl fun j => failLua_wanes
  case requeueThrottled => exact .wane rfl fun j => throttleLua_wanes
  case activateDue      => exact .wane rfl fun j => activateDueLua_wanes
  case recoverExpired   => exact .wane rfl fun j => recoverExpiredLua_wanes
  case retry            => exact .wane rfl fun j => retry_wanes
  case cancelLoaded     => exact .wane rfl fun j => cancelLoaded_wanes

-- The token that a hash holds is the one of the most recent grant.
structure Sound (b : RedisBroker) (s : Ledger) : Prop where
  token  : ∀ j h, s.redis.jobs j = some h → h.leaseToken ≠ "" →
    ∃ g, s.latest j = some g ∧ h.leaseToken = g.token b
  active : ∀ j h, s.redis.jobs j = some h → h.state = .active → h.leaseToken ≠ ""

namespace Sound

theorem initial : Sound b initial where
  token  _ _ hj := by simp [Ledger.initial, Redis.empty] at hj
  active _ _ hj := by simp [Ledger.initial, Redis.empty] at hj

theorem of_wanes (hs : Sound b s) (hl : s'.latest j = s.latest j) (hw : s.redis.Wanes j s'.redis) {h : JobHash}
    (hj : s'.redis.jobs j = some h) :
    (h.leaseToken ≠ "" → ∃ g, s'.latest j = some g ∧ h.leaseToken = g.token b) ∧
    (h.state = .active → h.leaseToken ≠ "") := by
  have hw := hw.hash h hj
  cases hj' : s.redis.jobs j
  case none =>
    simp only [hj', Option.getD_none] at hw
    exact ⟨fun ht => absurd (hw.token.elim id id) ht, fun ha => nomatch (hw.active ha).left⟩
  case some h' =>
    simp only [hj', Option.getD_some] at hw
    constructor
    · intro ht
      have he := hw.token.resolve_left ht
      rw [hl, he]
      exact hs.token j h' hj' (he ▸ ht)
    · intro ha
      have ⟨ha, he⟩ := hw.active ha
      exact he ▸ hs.active j h' hj' ha

theorem latest_cons (hg : s'.grants = g :: s.grants) (hj : j ≠ g.jobID) : s'.latest j = s.latest j := by
  simp [latest, hg, hj.symm]

theorem change (hs : Sound b s) (hc : Change b s s') : Sound b s' := by
  have hh {j : JobID} {h : JobHash} (hj : s'.redis.jobs j = some h) :
      (h.leaseToken ≠ "" → ∃ g, s'.latest j = some g ∧ h.leaseToken = g.token b) ∧
      (h.state = .active → h.leaseToken ≠ "") := by
    cases hc
    case wane hg hw         => exact hs.of_wanes (by simp [latest, hg]) (hw j) hj
    case grant g hg ht hw   =>
      by_cases he : j = g.jobID
      case neg => exact hs.of_wanes (latest_cons hg he) (hw j he) hj
      case pos =>
        have ht := ht h (he ▸ hj)
        exact ⟨fun _ => ⟨g, by simp [latest, hg, he], ht⟩, fun _ => ht ▸ g.token_ne_empty b⟩
  exact ⟨fun _ _ hj => (hh hj).left, fun _ _ hj => (hh hj).right⟩

theorem step (hs : Sound b s) (hu : Unleased c) : Sound b (s.step b c) :=
  hs.change (step_cases hu)

end Sound

-- What a call that the broker accepts has found in the hash of the job.
theorem stored_of_accepted (hp : presents c = some (j, t)) (ha : accepted c (b.exec s.redis c).2) :
    ∃ h, s.redis.jobs j = some h ∧ h.leaseToken = t := by
  cases c
  case heartbeat        => cases hp; exact heartbeatLua_token ha
  case complete         => cases hp; exact completeLua_token ha
  case fail             => cases hp; exact failLua_token ha
  case requeueThrottled => cases hp; exact throttleLua_token ha
  all_goals nomatch hp

-- The tokens of different grants differ.
def Distinct (b : RedisBroker) (grants : List Grant) : Prop :=
  ∀ g ∈ grants, ∀ g' ∈ grants, g.token b = g'.token b → g = g'

theorem distinct_of_collisionFree {grants : List Grant} (hc : CollisionFree b grants) (hi : IDsAreUUIDs grants) :
    Distinct b grants := by
  intro g hg g' hg' ht
  exact Grant.text_inj (hi g hg) (hi g' hg') (hc g hg g' hg' ht)

theorem mem_of_latest (h : s.latest j = some g) : g ∈ s.grants :=
  List.mem_of_find?_eq_some h

theorem jobID_of_latest (h : s.latest j = some g) : g.jobID = j := by
  have hj := List.find?_some h
  exact of_decide_eq_true hj

-- Only the most recent grant of a job has a token that the broker accepts.
theorem latest_of_accepted {grants : List Grant} (hs : Sound b s) (hd : Distinct b grants)
    (hm : ∀ g ∈ s.grants, g ∈ grants) (hg : g ∈ grants) (hp : presents c = some (j, g.token b))
    (ha : accepted c (b.exec s.redis c).2) : s.latest j = some g := by
  have ⟨h, hj, ht⟩   := stored_of_accepted hp ha
  have ⟨g', hl, ht'⟩ := hs.token j h hj (ht ▸ g.token_ne_empty b)
  have he : g = g'   := hd g hg g' (hm g' <| mem_of_latest hl) (ht.symm.trans ht')
  exact he ▸ hl

-- The lease of `g` has not ended yet.
def Live (b : RedisBroker) (s : Ledger) (g : Grant) : Prop :=
  (∃ h, s.redis.jobs g.jobID = some h ∧ h.leaseToken = g.token b) ∨
  (s.latest g.jobID = some g ∧ s.redis.leased g.jobID)

theorem not_live_of_free (h : s.redis.Free g.jobID) : ¬Live b s g := by
  rintro (⟨h', hj, ht⟩ | ⟨_, hl⟩)
  case inl => exact g.token_ne_empty b <| ht ▸ h.token h' hj
  case inr => simp [h.unleased] at hl

theorem live_of_wanes (hs : Sound b s) (hg : s'.latest g.jobID = s.latest g.jobID)
    (hw : s.redis.Wanes g.jobID s'.redis) (h : Live b s' g) : Live b s g := by
  match h with
  | .inl ⟨h', hj, ht⟩ =>
    have hn : h'.leaseToken ≠ "" := ht ▸ g.token_ne_empty b
    have he := (hw.hash h' hj).token.resolve_left hn
    cases hj' : s.redis.jobs g.jobID
    case none   => exact absurd (by simpa [hj', JobHash.empty] using he) hn
    case some h => exact .inl ⟨h, hj', by simpa [hj', ht] using he.symm⟩
  | .inr ⟨hl, hr⟩ =>
    have hl := hg ▸ hl
    match hw.lease hr with
    | .inl hr          => exact .inr ⟨hl, hr⟩
    | .inr ⟨h, hj, ha⟩ =>
      have ⟨g', hl', ht⟩ := hs.token _ h hj (hs.active _ h hj ha)
      have he : g' = g   := Option.some.inj (hl'.symm.trans hl)
      exact .inl ⟨h, hj, he ▸ ht⟩

-- A lease that has ended only comes back if it is granted once more.
theorem live_of_change {grants : List Grant} (hs : Sound b s) (hc : Change b s s') (hd : Distinct b grants)
    (hm : ∀ g ∈ s'.grants, g ∈ grants) (hg : g ∈ grants) (h : Live b s' g) :
    Live b s g ∨ s'.grants = g :: s.grants := by
  cases hc
  case wane hg' hw        => exact .inl <| live_of_wanes hs (by simp [latest, hg']) (hw _) h
  case grant g' hg' ht hw =>
    by_cases he : g.jobID = g'.jobID
    case neg => exact .inl <| live_of_wanes hs (Sound.latest_cons hg' he) (hw _ he) h
    case pos =>
      have hl : s'.latest g.jobID = some g' := by simp [latest, hg', he]
      have hg'' : g' = g := by
        match h with
        | .inr ⟨hl', _⟩     => exact Option.some.inj (hl.symm.trans hl')
        | .inl ⟨h, hj, ht'⟩ => exact hd _ (hm g' <| mem_of_latest hl) _ hg ((ht h (he ▸ hj)).symm.trans ht')
      exact .inr (hg'' ▸ hg')

theorem change_grants (hc : Change b s s') : s.grants.count g ≤ s'.grants.count g := by
  cases hc
  case wane hg _      => rw [hg]
  case grant hg _ _   => rw [hg]; exact List.count_le_count_cons

-- A call that ends a lease finds it alive, and leaves nothing of it behind.
theorem free_of_ends {grants : List Grant} (hs : Sound b s) (hd : Distinct b grants)
    (hm : ∀ g ∈ s.grants, g ∈ grants) (hg : g ∈ grants) (he : s.ends b g c) :
    Live b s g ∧ (s.step b c).redis.Free g.jobID := by
  have hp {j : JobID} (hp : presents c = some (j, g.token b)) (ha : accepted c (b.exec s.redis c).2) :
      Live b s g ∧ g.jobID = j := by
    have hl := latest_of_accepted hs hd hm hg hp ha
    have hj := jobID_of_latest hl
    exact ⟨.inl (hj ▸ stored_of_accepted hp ha), hj⟩
  cases c
  case complete         =>
    have ⟨ht, ha⟩ := of_decide_eq_true he
    have hj := hp (congrArg (fun t => some (_, t)) <| of_decide_eq_true ht) ha
    exact ⟨hj.left, hj.right ▸ completeLua_free ha⟩
  case fail             =>
    have ⟨ht, ha⟩ := of_decide_eq_true he
    have hj := hp (congrArg (fun t => some (_, t)) <| of_decide_eq_true ht) ha
    exact ⟨hj.left, hj.right ▸ failLua_free ha⟩
  case requeueThrottled =>
    have ⟨ht, ha⟩ := of_decide_eq_true he
    have hj := hp (congrArg (fun t => some (_, t)) <| of_decide_eq_true ht) ha
    exact ⟨hj.left, hj.right ▸ throttleLua_free ha⟩
  case recoverExpired   =>
    have ⟨hl, hr, hr'⟩ := of_decide_eq_true he
    exact ⟨.inr ⟨hl, hr⟩, recoverExpiredLua_free hr hr'⟩
  all_goals simp [ends, presents] at he

theorem mem_last (hg : g ∈ s.grants) : g ∈ (Run.last (step b) s cs).grants := by
  induction cs generalizing s
  case nil          => exact hg
  case cons c cs hi => exact hi <| List.mem_append_right _ hg

-- The lease of a grant ends at most once for each time that it is granted, and once more if it is
-- alive at the beginning of the run, which is when `n` is not zero.
theorem endings_le {n : Nat} (hs : Sound b s) (hu : ∀ c ∈ cs, Unleased c)
    (hd : Distinct b (Run.last (step b) s cs).grants) (hg : g ∈ (Run.last (step b) s cs).grants)
    (hn : Live b s g → 0 < n) :
    endings b g s cs + s.grants.count g ≤ n + (Run.last (step b) s cs).grants.count g := by
  induction cs generalizing s n
  case nil          => simp [endings]
  case cons c cs hi =>
    have ⟨hc, hu⟩  := List.forall_mem_cons.mp hu
    have hs'       := hs.step hc
    have hm : ∀ g ∈ (s.step b c).grants, g ∈ (Run.last (step b) (s.step b c) cs).grants :=
      fun _ => mem_last
    have hm' : ∀ g ∈ s.grants, g ∈ (Run.last (step b) (s.step b c) cs).grants :=
      fun g hg => hm g <| List.mem_append_right _ hg
    have hl        := change_grants (g := g) (step_cases (b := b) (s := s) hc)
    have hr : Run.last (step b) s (c :: cs) = Run.last (step b) (s.step b c) cs := rfl
    rw [hr, endings]
    by_cases he : s.ends b g c
    case pos =>
      have ⟨hl', hf⟩ := free_of_ends hs hd hm' hg he
      have hi := hi (n := n - 1) hs' hu hd hg (fun h => absurd h <| not_live_of_free hf)
      have hn := hn hl'
      rw [he, Bool.toNat_true]
      omega
    case neg =>
      rw [Bool.eq_false_of_not_eq_true he, Bool.toNat_false]
      by_cases hg' : (s.step b c).grants = g :: s.grants
      case pos =>
        have hi := hi (n := n + 1) hs' hu hd hg (fun _ => n.succ_pos)
        rw [hg', List.count_cons_self] at hi
        omega
      case neg =>
        have hl' h := (live_of_change hs (step_cases hc) hd hm hg h).resolve_right hg'
        have hi := hi (n := n) hs' hu hd hg fun h => hn (hl' h)
        omega

theorem sound_last (hs : Sound b s) (hu : ∀ c ∈ cs, Unleased c) : Sound b (Run.last (step b) s cs) := by
  induction cs generalizing s
  case nil          => exact hs
  case cons c cs hi =>
    have ⟨hc, hu⟩ := List.forall_mem_cons.mp hu
    exact hi (hs.step hc) hu

-- Leases are fenced in every run in which no job is leased when it is passed to `Enqueue`.
theorem fenced_of_unleased (hu : ∀ c ∈ cs, Unleased c)
    (hc : CollisionFree b (Run.last (step b) initial cs).grants)
    (hi : IDsAreUUIDs (Run.last (step b) initial cs).grants) : Fenced b cs where
  latest g hg c j hp ha :=
    latest_of_accepted (sound_last .initial hu) (distinct_of_collisionFree hc hi) (fun _ => id) hg hp ha
  ended g hg := by
    have hm : g ∈ (Run.last (step b) initial cs).grants := List.count_pos_iff.mp (by omega)
    have hn : ¬Live b initial g := by simp [Live, initial, latest, Redis.empty]
    have he := endings_le (n := 0) .initial hu (distinct_of_collisionFree hc hi) hm (fun h => absurd h hn)
    simpa [hg] using (Nat.le_add_right ..).trans he

section

def sampleTime (seconds : Int) : Time :=
  .ofUnixMilli 1700000000000 + seconds * Duration.second

def sampleJob : Job :=
  buildJob (sampleTime 0) (.plain "email.send") "job-1"

def sampleToken : Token :=
  "5567c106259ceacb00ef1701815b187dca3f70c3"

-- The lease of the first worker expires, and another worker takes over.
def takeover : List BrokerCall := [
  .enqueue sampleJob (sampleTime 0),
  .dequeue "worker-1" [] (30 * Duration.second) (sampleTime 0),
  .recoverExpired 200 (sampleTime 35),
  .activateDue 200 (sampleTime 45),
  .dequeue "worker-2" [] (30 * Duration.second) (sampleTime 60)
]

theorem fenced_of_unleased_sample : Fenced .sample takeover :=
  fenced_of_unleased (by simp [takeover, Unleased]; decide) (by unfold CollisionFree; decide +kernel)
    (by unfold IDsAreUUIDs; decide +kernel)

-- A job that is enqueued with a token brings the lease of that token back, and one that is enqueued
-- as an active job can be leased without a grant.
theorem not_fenced_of_leased :
    let stolen := takeover ++ [.enqueue { sampleJob with leaseToken := sampleToken } (sampleTime 61)]
    let revived : List BrokerCall := [
      .enqueue sampleJob (sampleTime 0),
      .dequeue "worker-1" [] (30 * Duration.second) (sampleTime 0),
      .complete sampleJob sampleToken "" (sampleTime 1),
      .enqueue { sampleJob with state := .active } (sampleTime 2),
      .heartbeat "job-1" "" (30 * Duration.second) (sampleTime 3),
      .recoverExpired 200 (sampleTime 40)
    ]
    (CollisionFree .sample (Run.last (step .sample) initial stolen).grants ∧
      IDsAreUUIDs (Run.last (step .sample) initial stolen).grants ∧ ¬Fenced .sample stolen) ∧
    (CollisionFree .sample (Run.last (step .sample) initial revived).grants ∧
      IDsAreUUIDs (Run.last (step .sample) initial revived).grants ∧ ¬Fenced .sample revived) := by
  refine ⟨⟨?_, ?_, fun h => ?_⟩, ?_, ?_, fun h => ?_⟩
  · unfold CollisionFree; decide +kernel
  · unfold IDsAreUUIDs; decide +kernel
  · have hl := h.latest ⟨"job-1", "worker-1", 1700000000000⟩ (by decide +kernel)
      (.complete sampleJob sampleToken "" (sampleTime 62)) "job-1" (by decide +kernel) (by decide +kernel)
    revert hl
    decide +kernel
  · unfold CollisionFree; decide +kernel
  · unfold IDsAreUUIDs; decide +kernel
  · have he := h.ended ⟨"job-1", "worker-1", 1700000000000⟩ (by decide +kernel)
    revert he
    decide +kernel

end

end Ledger
end JobPlatform
