import JobPlatform.Queue.Fencing
import JobPlatform.Queue.Fields

namespace JobPlatform

-- How many leases of a job have ended since it was enqueued or retried: by a failure or an expiry, or by throttling.
structure Tally where
  ended     : Nat
  throttled : Nat
  deriving DecidableEq

def Tally.zero : Tally where
  ended     := 0
  throttled := 0

-- The states in which a job has another attempt to come.
def JobState.waits (s : JobState) : Bool :=
  s = queued ∨ s = scheduled ∨ s = retrying ∨ s = throttled ∨ s = blocked

theorem JobState.waits_of_isRunnable {s : JobState} (h : s.isRunnable) : s.waits := by
  cases s <;> first | rfl | cases h

-- The job has not been attempted, and may be.
structure Job.Fresh (job : Job) : Prop where
  attempts : job.attempts = 0
  max      : 0 < job.maxAttempts
  unleased : job.leaseToken = ""
  waits    : job.state.waits

-- The number of leases that have not ended.
def JobHash.held (h : JobHash) : Nat :=
  if h.leaseToken = "" then 0 else 1

-- The attempts of a job are the leases that have ended, and the one that has not.
structure JobHash.Balanced (h : JobHash) (m : Int) (t : Tally) : Prop where
  max      : h.maxAttempts = some m
  pos      : 0 < m
  bounded  : t.throttled = 0 → h.attempts ≤ m
  held     : h.leaseToken ≠ "" → h.attempts = t.ended + t.throttled + 1
  waiting  : h.state.waits → h.attempts = t.ended + t.throttled ∧ (t.throttled = 0 → h.attempts < m)
  failed   : h.state = .failed → h.attempts = t.ended + t.throttled ∧ m ≤ h.attempts
  active   : h.state = .active → h.leaseToken ≠ ""
  canceled : h.state = .canceled → h.cancelRequested

namespace JobHash.Balanced

variable {h h' : JobHash} {m : Int} {t : Tally} {job : Job} {now at' : Int} {workerID : WorkerID} {leaseToken : Token}
         {result reason : String}

theorem enqueue (hf : job.Fresh) : (jobHash job).Balanced job.maxAttempts .zero where
  max         := rfl
  pos         := hf.max
  bounded _   := by simpa [jobHash, hf.attempts] using hf.max.le
  held ht     := absurd hf.unleased ht
  waiting _   := by simpa [jobHash, hf.attempts, Tally.zero] using hf.max
  failed hs   := by simpa [JobState.waits, show job.state = .failed from hs] using hf.waits
  active hs   := by simpa [JobState.waits, show job.state = .active from hs] using hf.waits
  canceled hs := by simpa [JobState.waits, show job.state = .canceled from hs] using hf.waits

theorem lease (hb : h.Balanced m t) (hs : h.state.isRunnable) (ht : leaseToken ≠ "") :
    (h.lease workerID leaseToken at' now).Balanced m t where
  max         := hb.max
  pos         := hb.pos
  bounded hn  := by
    have ⟨_, hl⟩ := hb.waiting (JobState.waits_of_isRunnable hs)
    exact Int.add_one_le_of_lt (hl hn)
  held _      := by
    have ⟨ha, _⟩ := hb.waiting (JobState.waits_of_isRunnable hs)
    exact congrArg (· + 1) ha
  waiting hs  := nomatch hs
  failed hs   := nomatch hs
  active _    := ht
  canceled hs := nomatch hs

theorem renew (hb : h.Balanced m t) : (h.renew at' now).Balanced m t :=
  ⟨hb.max, hb.pos, hb.bounded, hb.held, hb.waiting, hb.failed, hb.active, hb.canceled⟩

theorem complete (hb : h.Balanced m t) : (h.complete job now result).Balanced m t where
  max         := hb.max
  pos         := hb.pos
  bounded     := hb.bounded
  held ht     := absurd rfl ht
  waiting hs  := nomatch hs
  failed hs   := nomatch hs
  active hs   := nomatch hs
  canceled hs := nomatch hs

-- What a job is like that waits for its next attempt.
theorem wait (hb : h.Balanced m t) {t' : Tally} (hm : h'.maxAttempts = h.maxAttempts) (hs : h'.state.waits)
    (ht : h'.leaseToken = "") (ha : h'.attempts = t'.ended + t'.throttled)
    (hn : t'.throttled = 0 → h'.attempts < m) : h'.Balanced m t' where
  max          := hm.trans hb.max
  pos          := hb.pos
  bounded h0   := (hn h0).le
  held h0      := absurd ht h0
  waiting _    := ⟨ha, hn⟩
  failed hs'   := by simp [hs', JobState.waits] at hs
  active hs'   := by simp [hs', JobState.waits] at hs
  canceled hs' := by simp [hs', JobState.waits] at hs

-- What a job is like that has failed for good.
theorem stop (hb : h.Balanced m t) {t' : Tally} (hm : h'.maxAttempts = h.maxAttempts) (hs : h'.state = .failed)
    (ht : h'.leaseToken = "") (ha : h'.attempts = t'.ended + t'.throttled) (hn : t'.throttled = 0 → h'.attempts ≤ m)
    (hl : m ≤ h'.attempts) : h'.Balanced m t' where
  max          := hm.trans hb.max
  pos          := hb.pos
  bounded      := hn
  held h0      := absurd ht h0
  waiting hs'  := by simp [hs, JobState.waits] at hs'
  failed _     := ⟨ha, hl⟩
  active hs'   := nomatch hs.symm.trans hs'
  canceled hs' := nomatch hs.symm.trans hs'

-- What a job is like that has been canceled.
theorem drop (hb : h.Balanced m t) {t' : Tally} (hm : h'.maxAttempts = h.maxAttempts) (hs : h'.state = .canceled)
    (hc : h'.cancelRequested) (hh : h'.leaseToken ≠ "" → h'.attempts = t'.ended + t'.throttled + 1)
    (hn : t'.throttled = 0 → h'.attempts ≤ m) : h'.Balanced m t' where
  max         := hm.trans hb.max
  pos         := hb.pos
  bounded     := hn
  held        := hh
  waiting hs' := by simp [hs, JobState.waits] at hs'
  failed hs'  := nomatch hs.symm.trans hs'
  active hs'  := nomatch hs.symm.trans hs'
  canceled _  := hc

-- A job that is neither leased nor canceled waits for its next attempt, unless it is done.
theorem spent (hb : h.Balanced m t) (hc : h.state ≠ .completed) (hf : h.state ≠ .failed)
    (hr : h.cancelRequested = false) : h.attempts = ↑(t.ended + h.held) + ↑t.throttled := by
  unfold JobHash.held
  split
  case isFalse ht =>
    have ha := hb.held ht
    push_cast
    omega
  case isTrue ht  =>
    have hs : h.state.waits := by
      cases hs : h.state <;> first
        | rfl
        | exact absurd hs hc
        | exact absurd hs hf
        | exact absurd ht (hb.active hs)
        | simp [hb.canceled hs] at hr
    exact (hb.waiting hs).left

end JobHash.Balanced

namespace Redis

-- Some lease of the job has not ended.
def holds (r : Redis) (j : JobID) : Bool :=
  (r.jobs j).any (·.leaseToken ≠ "")

-- Whether the lease of the job ends from `r` to `r'`.
def ended (r r' : Redis) (j : JobID) : Nat :=
  (r.holds j && !r'.holds j).toNat

structure Balanced (r : Redis) (j : JobID) (t : Tally) : Prop where
  hash  : ∀ h, r.jobs j = some h → h.id = j ∧ ∃ m, h.Balanced m t
  lease : ∀ h, r.jobs j = some h → r.leased j → h.state ≠ .completed ∧ h.state ≠ .failed

end Redis

-- What a call that leads from `r` to `r'` adds to the tally of the job.
def BrokerCall.tally (r r' : Redis) (j : JobID) (t : Tally) : BrokerCall → Tally
  | .enqueue job _       => if job.id = j then .zero else t
  | .retry job _         => if job.id = j then .zero else t
  | .fail ..             => { t with ended := t.ended + r.ended r' j }
  | .recoverExpired ..   => { t with ended := t.ended + r.ended r' j }
  | .requeueThrottled .. => { t with throttled := t.throttled + r.ended r' j }
  | _                    => t

-- Only new jobs are enqueued, and only jobs that are there are retried or canceled. A job fails for good when it
-- has no attempts left, and what is due waits for its next attempt.
def BrokerCall.Fair (r : Redis) : BrokerCall → Prop
  | .enqueue job _                      => job.Fresh
  | .retry job _                        => job.attempts = 0 ∧ (r.jobs job.id).isSome
  | .complete _ leaseToken ..           => leaseToken ≠ ""
  | .cancelLoaded jobID ..              => (r.jobs jobID).isSome
  | .fail job leaseToken _ retryAt _    => leaseToken ≠ "" ∧ ∀ h m, r.jobs job.id = some h → h.leaseToken = leaseToken →
    h.maxAttempts = some m → (retryAt.isSome ↔ h.attempts < m)
  | .requeueThrottled _ leaseToken ..   => leaseToken ≠ ""
  | .activateDue limit now              => ∀ j ∈ (r.zsets .delayed).rangeByScore (.ofInt now.unixMilli) limit,
    (r.jobs j).all (·.state.waits)
  | _                                   => True

namespace Redis.Balanced

open RedisBroker

variable {b : RedisBroker} {r r' : Redis} {i j : JobID} {t : Tally} {f : JobHash → JobHash} {k : ListKey} {z : ZSetKey}
         {s : Score} {ids : List JobID} {job : Job} {c : BrokerCall} {leaseToken : Token} {body : Redis → Redis}
         {h h' : JobHash} {m : Int}

theorem empty : Redis.empty.Balanced j t :=
  ⟨(fun _ h => nomatch h), fun _ h => nomatch h⟩

theorem of_unchanged (hr : r.Balanced j t) (hu : r.Unchanged j r') : r'.Balanced j t where
  hash h hj     := hr.hash h (hu.jobs.symm.trans hj)
  lease h hj hl := hr.lease h (hu.jobs.symm.trans hj) (by simpa [leased, hu.score] using hl)

theorem holds_of_unchanged (hu : r.Unchanged j r') : r'.holds j = r.holds j := by
  simp [holds, hu.jobs]

theorem ended_of_unchanged (hu : r.Unchanged j r') : r.ended r' j = 0 := by
  simp [ended, holds_of_unchanged hu]

theorem ended_congr {r₁ r₁' : Redis} (hu : r.Unchanged j r₁) (hu' : r'.Unchanged j r₁') :
    r₁.ended r₁' j = r.ended r' j := by
  simp [ended, holds_of_unchanged hu, holds_of_unchanged hu']

theorem leased_of_zrem (hl : (r.zrem .activeLeases i).leased j) : r.leased j := by
  by_cases hi : j = i
  case pos => simp [leased, zrem_score?, hi] at hl
  case neg => simpa [leased, zrem_score?, hi] using hl

-- The job has been written into a hash, and is not in the set of active leases if it is done.
theorem of_hash (hj : r.jobs j = some h) (hi : h.id = j) (hb : h.Balanced m t)
    (hl : r.leased j → h.state ≠ .completed ∧ h.state ≠ .failed) : r.Balanced j t where
  hash _ hx      := by
    cases hj.symm.trans hx
    exact ⟨hi, m, hb⟩
  lease _ hx hl' := by
    cases hj.symm.trans hx
    exact hl hl'

theorem enqueue {now : Time} (hr : r.Balanced j t) (hf : job.Fresh) :
    (RedisBroker.enqueue job now r).Balanced j (if job.id = j then .zero else t) := by
  split
  case isFalse hj => exact hr.of_unchanged (enqueue_unchanged (Ne.symm hj))
  case isTrue hj  =>
    subst hj
    refine of_hash (h := jobHash job) (by simp [enqueue_jobs]) rfl (.enqueue hf) fun _ => ?_
    have hs := hf.waits
    constructor <;> intro he <;> simp [JobState.waits, show job.state = _ from he] at hs

theorem dequeueLua {workerID : WorkerID} {ttl now : Int} {keys : List ListKey} (hr : r.Balanced j t) :
    (b.dequeueLua workerID ttl now keys r).1.Balanced j t := by
  apply dequeueLua_rule (P := (Redis.Balanced · j t)) (Q := fun r _ => r.Balanced j t)
  case hr    => exact hr
  case none  => exact fun _ => id
  case drop  => exact fun _ _ _ _ hr _ _ _ => ⟨hr.hash, hr.lease⟩
  case lease =>
    intro r k i rest h hr _ _ hi hs
    have hd : (r.lset k rest).Balanced j t := ⟨hr.hash, hr.lease⟩
    by_cases hj : j = i
    case neg => exact hd.of_unchanged (lease_unchanged hj)
    case pos =>
      subst hj
      obtain ⟨hn, m, hb⟩ := hr.hash h hi
      refine of_hash (h := h.lease workerID (b.leaseTokenOf workerID j now) ttl now) ?_ hn (hb.lease hs (by simp)) ?_
      · simp [RedisBroker.lease, hi]
      · simp [JobHash.lease]

theorem heartbeatLua {ttl now : Int} (hr : r.Balanced j t) :
    (RedisBroker.heartbeatLua i leaseToken ttl now r).1.Balanced j t := by
  apply heartbeatLua_rule (Q := fun x => x.1.Balanced j t) <;> dsimp only
  case rejected => exact hr
  case accepted =>
    intro h hi _ ha
    by_cases hj : j = i
    case neg => exact hr.of_unchanged (renew_unchanged hj)
    case pos =>
      subst hj
      obtain ⟨hn, m, hb⟩ := hr.hash h hi
      exact of_hash (h := h.renew ttl now) (by simp [renew, hi]) hn hb.renew fun _ => by simp [JobHash.renew, ha]

-- The tally changes by `g` if the lease has ended.
theorem endLease {g : Nat → Tally} (hr : r.Balanced j t) (hg : g 0 = t) (hn : leaseToken ≠ "")
    (hu : j ≠ i → ∀ r : Redis, r.Unchanged j (body r)) (hj : ∀ r, (body r).jobs i = (r.hset i f).jobs i)
    (hz : ∀ r, (body r).leased i = r.leased i) (hf : ∀ h, (f h).id = h.id ∧ (f h).leaseToken = "")
    (hb : ∀ h m, r.jobs i = some h → h.leaseToken = leaseToken → h.Balanced m t → (f h).Balanced m (g 1)) :
    let r' := (RedisBroker.endLease i leaseToken body r).1
    r'.Balanced j (g (r.ended r' j)) := by
  apply endLease_rule (Q := fun x => x.1.Balanced j (g (r.ended x.1 j))) <;> dsimp only
  case rejected =>
    rw [ended_of_unchanged (.refl ..), hg]
    exact hr
  case accepted =>
    intro h hi ht
    by_cases hji : j = i
    case neg =>
      have hu : r.Unchanged j (body (r.zrem .activeLeases i)) := .trans (.zrem hji) (hu hji _)
      rw [ended_of_unchanged hu, hg]
      exact hr.of_unchanged hu
    case pos =>
      subst hji
      obtain ⟨hid, m, hm⟩ := hr.hash h hi
      have hi' : (body (r.zrem .activeLeases j)).jobs j = some (f h) := by simp [hj, hi]
      have he : r.ended (body (r.zrem .activeLeases j)) j = 1 := by
        simp [ended, holds, hi, hi', hf, ht, hn]
      have hl : (body (r.zrem .activeLeases j)).leased j = false := (hz _).trans (by simp [leased, zrem_score?])
      rw [he]
      exact of_hash hi' ((hf h).left.trans hid) (hb h m hi ht hm) fun h => by simp [hl] at h

theorem activateDueLua {limit now : Int} (hr : r.Balanced j t)
    (hw : ∀ j ∈ (r.zsets .delayed).rangeByScore (.ofInt now) limit, (r.jobs j).all (·.state.waits)) :
    (RedisBroker.activateDueLua limit now r).1.Balanced j t := by
  apply activateAll_rule (P := (Redis.Balanced · j t)) SortedSet.rangeByScore_nodup
  case hr => exact hr
  case hs =>
    intro r' i hm hu _ hr
    by_cases hj : j = i
    case neg => exact hr.of_unchanged (activate_unchanged hj)
    case pos =>
      subst hj
      cases hi : r'.jobs j
      case none   => simpa [activate, hi] using ⟨hr.hash, by simpa [leased, zrem_score?] using hr.lease⟩
      case some h =>
        obtain ⟨hn, m, hb⟩ := hr.hash h hi
        have hs : h.state.waits := by simpa [← hu.jobs, hi] using hw j hm
        obtain ⟨ha, hl⟩ := hb.waiting hs
        exact of_hash (h := h.activate now) (by simp [activate, hi]) hn (hb.wait rfl rfl rfl ha hl)
          (by simp [JobHash.activate])

-- The lease of a recovered job has ended, if there was one.
theorem of_recovered {g : JobHash} (hr : r.Balanced j t) (hj : r.jobs j = some h) (hj' : r'.jobs j = some g)
    (hi : g.id = h.id) (ht : g.leaseToken = "") (hl : r'.leased j = false)
    (hb : ∀ m, h.Balanced m t → g.Balanced m { t with ended := t.ended + h.held }) :
    r'.Balanced j { t with ended := t.ended + r.ended r' j } := by
  obtain ⟨hn, m, hm⟩ := hr.hash h hj
  have he : r.ended r' j = h.held := by
    by_cases hh : h.leaseToken = "" <;> simp [ended, holds, hj, hj', ht, hh, JobHash.held]
  rw [he]
  exact of_hash hj' (hi.trans hn) (hb m hm) fun h => by simp [hl] at h

theorem recover {now : Int} (hr : r.Balanced j t) (hz : r.leased j) (hj : r.jobs j = some h) :
    let r' := (b.recover now j h (r.zrem .activeLeases j)).1
    r'.Balanced j { t with ended := t.ended + r.ended r' j } := by
  obtain ⟨hc, hf⟩ := hr.lease h hj hz
  apply recover_rule (Q := fun x => x.1.Balanced j { t with ended := t.ended + r.ended x.1 j }) <;> dsimp only
  case canceled =>
    intro hcr
    refine hr.of_recovered (g := h.cancelExpired now) hj (by simp [hj]) rfl rfl ?_ fun m hb => ?_
    · simp [leased, zrem_score?]
    · exact hb.drop rfl rfl hcr (by simp [JobHash.cancelExpired]) hb.bounded
  case retrying =>
    intro s hcr hl _
    let at' := storedMillis (b.retryAt now h.attempts)
    refine hr.of_recovered (g := h.retryExpired at' now) hj (by simp [hj, at']) rfl rfl ?_ fun m hb => ?_
    · simp [leased, zrem_score?, zadd_score?]
    · exact hb.wait rfl rfl rfl (hb.spent hc hf hcr) fun _ => show h.attempts < m by simpa [hb.max] using hl
  case aborted  =>
    intro hcr hl _
    refine hr.of_recovered (g := h.retryExpired 0 now) hj (by simp [hj]) rfl rfl ?_ fun m hb => ?_
    · simp [leased, zrem_score?]
    · exact hb.wait rfl rfl rfl (hb.spent hc hf hcr) fun _ => show h.attempts < m by simpa [hb.max] using hl
  case failed   =>
    intro hcr hl
    refine hr.of_recovered (g := h.failExpired now) hj (by simp [hj]) rfl rfl ?_ fun m hb => ?_
    · simp [leased, zrem_score?]
    · exact hb.stop rfl rfl rfl (hb.spent hc hf hcr) hb.bounded (show m ≤ h.attempts by simpa [hb.max] using hl)

theorem recoverExpiredLua {limit now : Int} (hr : r.Balanced j t) :
    let r' := (b.recoverExpiredLua limit now r).1
    r'.Balanced j { t with ended := t.ended + r.ended r' j } := by
  apply recoverAll_rule (P := fun r' => r'.Balanced j { t with ended := t.ended + r.ended r' j })
    SortedSet.rangeByScore_nodup
  case hr      => simpa [ended_of_unchanged (.refl ..)] using hr
  case absent  =>
    intro r' i _ _ hi hb
    exact ⟨hb.hash, fun h hj hl => hb.lease h hj (leased_of_zrem hl)⟩
  case present =>
    intro r' i h _ hu hz hi hb
    by_cases hj : j = i
    case neg =>
      have hu : r'.Unchanged j (b.recover now i h (r'.zrem .activeLeases i)).1 :=
        .trans (.zrem hj) (recover_unchanged hj)
      rw [ended_congr (.refl ..) hu]
      exact hb.of_unchanged hu
    case pos =>
      subst hj
      rw [← ended_congr hu (.refl ..)]
      exact (hr.of_unchanged hu).recover hz hi

theorem retry {now : Time} (hr : r.Balanced j t) (ha : job.attempts = 0) (hj : (r.jobs job.id).isSome) :
    (RedisBroker.retry job now r).Balanced j (if job.id = j then .zero else t) := by
  split
  case isFalse hi => exact hr.of_unchanged (retry_unchanged (Ne.symm hi))
  case isTrue hi  =>
    subst hi
    have ⟨h, hj⟩ := Option.isSome_iff_exists.mp hj
    obtain ⟨hn, m, hb⟩ := hr.hash h hj
    have hz : (h.retry job now.unixMilli).attempts = Tally.zero.ended + Tally.zero.throttled := ha
    have hm (_ : Tally.zero.throttled = 0) : (h.retry job now.unixMilli).attempts < m := by
      rw [hz]
      exact hb.pos
    have he : (RedisBroker.retry job now r).jobs job.id = _ := retry_jobs
    simp only [hj, Option.getD_some] at he
    split at he
    case isTrue  => exact of_hash he hn (hb.wait rfl rfl rfl hz hm) fun _ => ⟨nofun, nofun⟩
    case isFalse => exact of_hash he hn (hb.wait rfl rfl rfl hz hm) fun _ => ⟨nofun, nofun⟩

theorem cancelLoaded {now : Int} (hr : r.Balanced j t) (hi : (r.jobs i).isSome) :
    (RedisBroker.cancelLoaded i job now r).Balanced j t := by
  by_cases hj : j = i
  case neg => exact hr.of_unchanged (cancelLoaded_unchanged hj)
  case pos =>
    subst hj
    have ⟨h, hj⟩ := Option.isSome_iff_exists.mp hi
    obtain ⟨hn, m, hb⟩ := hr.hash h hj
    have he : (RedisBroker.cancelLoaded j job now r).jobs j = _ := cancelLoaded_jobs
    simp only [hj, Option.getD_some] at he
    split at he
    case isTrue   =>
      exact of_hash he hn (hb.drop rfl rfl rfl hb.held hb.bounded) fun _ => ⟨nofun, nofun⟩
    case isFalse hc =>
      have hb' : (h.requestCancel now).Balanced m t :=
        ⟨hb.max, hb.pos, hb.bounded, hb.held, hb.waiting, hb.failed, hb.active, fun _ => rfl⟩
      refine of_hash he hn hb' fun hl => ?_
      refine hr.lease h hj ?_
      simpa [RedisBroker.cancelLoaded, hc, leased] using hl

theorem completeLua {now : Int} {result : String} (hr : r.Balanced j t) (hn : leaseToken ≠ "") :
    (RedisBroker.completeLua job leaseToken now result r).1.Balanced j t :=
  hr.endLease (f := (·.complete job now result)) (g := fun _ => t) rfl hn (fun hi _ => .hset hi) (fun _ => rfl)
    (fun _ => rfl) (fun _ => ⟨rfl, rfl⟩) fun _ _ _ _ hb => hb.complete

theorem throttleLua {now retryAt : Int} {reason : String} (hr : r.Balanced j t) (hn : leaseToken ≠ "") :
    let r' := (RedisBroker.throttleLua job leaseToken now reason retryAt r).1
    r'.Balanced j { t with throttled := t.throttled + r.ended r' j } := by
  refine hr.endLease (f := (·.throttle reason retryAt now))
    (g := fun n => { t with throttled := t.throttled + n }) rfl hn
    (fun hi _ => .trans (.hset hi) (.zadd hi)) (fun _ => rfl) (fun _ => ?_) (fun _ => ⟨rfl, rfl⟩)
    fun h m hj ht hb => ?_
  · simp [leased, zadd_score?]
  · refine hb.wait rfl rfl rfl ?_ (by simp)
    have ha := hb.held (ht ▸ hn)
    have he : (h.throttle reason retryAt now).attempts = h.attempts := rfl
    push_cast
    omega

theorem failLua {now : Int} {retryAt : Option Int} {errMessage : String} (hr : r.Balanced j t) (hn : leaseToken ≠ "")
    (hl : ∀ h m, r.jobs job.id = some h → h.leaseToken = leaseToken → h.maxAttempts = some m →
      (retryAt.isSome ↔ h.attempts < m)) :
    let r' := (RedisBroker.failLua job leaseToken errMessage retryAt now r).1
    r'.Balanced j { t with ended := t.ended + r.ended r' j } := by
  have spent {h : JobHash} {m : Int} (ht : h.leaseToken = leaseToken) (hb : h.Balanced m t) :
      h.attempts = ↑(t.ended + 1) + ↑t.throttled := by
    have ha := hb.held (ht ▸ hn)
    push_cast
    omega
  cases retryAt
  case some at' =>
    refine hr.endLease (f := (·.retryAfterFailure errMessage at' now))
      (g := fun n => { t with ended := t.ended + n }) rfl hn (fun hi _ => .trans (.hset hi) (.zadd hi)) (fun _ => rfl)
      (fun _ => ?_) (fun _ => ⟨rfl, rfl⟩) fun h m hj ht hb => ?_
    · simp [leased, zadd_score?]
    · exact hb.wait rfl rfl rfl (spent (h := h) ht hb) fun _ => (hl h m hj ht hb.max).mp rfl
  case none     =>
    refine hr.endLease (f := (·.fail errMessage now)) (g := fun n => { t with ended := t.ended + n }) rfl hn
      (fun hi _ => .trans (.hset hi) (.lpush hi)) (fun _ => rfl) (fun _ => rfl) (fun _ => ⟨rfl, rfl⟩)
      fun h m hj ht hb => ?_
    refine hb.stop rfl rfl rfl (spent (h := h) ht hb) hb.bounded ?_
    exact not_lt.mp fun hlt => by simpa using (hl h m hj ht hb.max).mpr hlt

-- Each call keeps the balance of all jobs.
theorem exec (hr : r.Balanced j t) (hc : c.Fair r) : (b.exec r c).1.Balanced j (c.tally r (b.exec r c).1 j t) := by
  cases c
  case enqueue          => exact hr.enqueue hc
  case loadJob          => exact hr
  case dequeue          => exact hr.dequeueLua
  case heartbeat        => exact hr.heartbeatLua
  case complete         => exact hr.completeLua hc
  case fail             => exact hr.failLua hc.left (by simpa using hc.right)
  case requeueThrottled => exact hr.throttleLua hc
  case activateDue      => exact hr.activateDueLua hc
  case recoverExpired   => exact hr.recoverExpiredLua
  case retry            => exact hr.retry hc.left hc.right
  case cancelLoaded     => exact hr.cancelLoaded hc

end Redis.Balanced

-- The fields which decide about whether a job fails for good.
def JobHash.budget (h : JobHash) : Int × Option Int :=
  (h.attempts, h.maxAttempts)

theorem JobHash.budget_lasting : JobHash.Lasting JobHash.budget := by
  constructor <;> intros <;> rfl

-- The lease which is granted by a call.
def BrokerCall.grants : (c : BrokerCall) → Except Error c.Resp → Option (JobID × Token)
  | .dequeue .., .ok lease => lease
  | _,           _         => none

namespace RedisBroker

variable {b : RedisBroker} {r r' : Redis} {j : JobID} {c : BrokerCall} {t : Token} {h : JobHash}

-- The token of the job is one that its hash has held before, with the same budget.
def Keeps (r : Redis) (j : JobID) (h : JobHash) : Prop :=
  ∃ h', r.jobs j = some h' ∧ h'.leaseToken = h.leaseToken ∧ h'.budget = h.budget

theorem keeps_of_unchanged (hu : r.Unchanged j r') (hj : r'.jobs j = some h) : Keeps r j h :=
  ⟨h, hu.jobs.symm.trans hj, rfl, rfl⟩

theorem keeps_of_wanes (hw : r.Wanes j r') (hf : r'.fields JobHash.budget = r.fields JobHash.budget)
    (hj : r'.jobs j = some h) (hn : h.leaseToken ≠ "") : Keeps r j h := by
  have hb : r.fields JobHash.budget j = some h.budget := by
    rw [← hf]
    exact Redis.fields_eq_some.mpr ⟨h, hj, rfl⟩
  obtain ⟨h', hj', hb⟩ := Redis.fields_eq_some.mp hb
  have hw := hw.hash h hj
  rw [hj'] at hw
  exact ⟨h', hj', (hw.token.resolve_left hn).symm, hb⟩

theorem dequeueLua_keeps {workerID : WorkerID} {ttl now : Int} {keys : List ListKey}
    (hj : (b.dequeueLua workerID ttl now keys r).1.jobs j = some h)
    (hg : (b.dequeueLua workerID ttl now keys r).2 ≠ some (j, h.leaseToken)) : Keeps r j h := by
  revert hj hg
  apply dequeueLua_rule (P := fun r' => r'.jobs = r.jobs)
    (Q := fun r' res => r'.jobs j = some h → res ≠ some (j, h.leaseToken) → Keeps r j h)
  case hr    => rfl
  case drop  => exact fun _ _ _ _ hr _ _ _ => hr
  case none  => exact fun r' hr hj _ => ⟨h, hr ▸ hj, rfl, rfl⟩
  case lease =>
    intro r' k i rest g hr _ _ _ _ hj hg
    by_cases hi : j = i
    case neg => exact ⟨h, hr ▸ (lease_unchanged hi).jobs.symm.trans hj, rfl, rfl⟩
    case pos =>
      subst hi
      have hl : (b.lease workerID ttl now j (r'.lset k rest)).jobs j =
          some (((r'.jobs j).getD .empty).lease workerID (b.leaseTokenOf workerID j now) ttl now) := by
        simp [lease]
      cases hl.symm.trans hj
      exact absurd rfl hg

theorem exec_keeps (hc : c.Fair r) (hj : (b.exec r c).1.jobs j = some h) (hn : h.leaseToken ≠ "")
    (hg : c.grants (b.exec r c).2 ≠ some (j, h.leaseToken)) : Keeps r j h := by
  have hl (hc : Lasts c) (hw : r.Wanes j (b.exec r c).1) : Keeps r j h :=
    keeps_of_wanes hw (exec_fields JobHash.budget_lasting hc) hj hn
  cases c
  case enqueue job now  =>
    by_cases hi : j = job.id
    case neg => exact keeps_of_unchanged (enqueue_unchanged hi) hj
    case pos =>
      have he : some (jobHash job) = some h := by simpa [exec, enqueue_jobs, hi] using hj
      cases he
      exact absurd hc.unleased hn
  case retry job now    =>
    by_cases hi : j = job.id
    case neg => exact keeps_of_unchanged (retry_unchanged hi) hj
    case pos =>
      have he := retry_jobs.symm.trans (hi ▸ hj)
      dsimp only at he
      split at he <;> cases he <;> exact absurd rfl hn
  case dequeue          => exact dequeueLua_keeps hj hg
  case loadJob          => exact hl trivial (.refl ..)
  case heartbeat        => exact hl trivial heartbeatLua_wanes
  case complete         => exact hl trivial completeLua_wanes
  case fail             => exact hl trivial failLua_wanes
  case requeueThrottled => exact hl trivial throttleLua_wanes
  case activateDue      => exact hl trivial activateDueLua_wanes
  case recoverExpired   => exact hl trivial recoverExpiredLua_wanes
  case cancelLoaded     =>
    exact keeps_of_wanes cancelLoaded_wanes (cancelLoaded_fields_of_isSome JobHash.budget_lasting hc) hj hn

-- A hash is never deleted.
theorem exec_isSome (hj : (r.jobs j).isSome) : ((b.exec r c).1.jobs j).isSome := by
  let g (_ : JobHash) : Unit := ()
  have hg : JobHash.Lasting g := by constructor <;> intros <;> rfl
  have hs {r' : Redis} : (r'.jobs j).isSome = (r'.fields g j).isSome := by simp [Redis.fields]
  have hu {r' : Redis} {i : JobID} (hf : r'.fields g = Function.update (r.fields g) i (some ())) :
      (r'.jobs j).isSome := by
    rw [hs, hf, Function.update_apply]
    split
    case isTrue  => rfl
    case isFalse => exact hs ▸ hj
  have hl (hc : Lasts c) : ((b.exec r c).1.jobs j).isSome := by
    rw [hs, exec_fields hg hc, ← hs]
    exact hj
  cases c
  case enqueue      => exact hu enqueue_fields
  case retry        => exact hu (retry_fields hg)
  case cancelLoaded => exact hu (cancelLoaded_fields hg)
  case dequeue workerID queues leaseTTL now =>
    have hd := @dequeueLua_fields _ g b workerID leaseTTL.milliseconds now.unixMilli (readyKeysForQueues queues) r id
      fun _ _ _ _ _ => rfl
    revert hd
    simp only [exec, Prod.map_fst, id_eq]
    generalize b.dequeueLua workerID leaseTTL.milliseconds now.unixMilli (readyKeysForQueues queues) r = x
    obtain ⟨r', _ | ⟨i, t⟩⟩ := x
    case none => exact fun hf => hs.trans ((congrArg (fun f => (f j).isSome) hf).trans (hs.symm.trans hj))
    case some =>
      rintro ⟨_, _, hf⟩
      exact hu hf
  all_goals exact hl trivial

end RedisBroker
end JobPlatform
