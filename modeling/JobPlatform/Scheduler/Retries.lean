import JobPlatform.Queue.Backoff
import JobPlatform.Scheduler.Batch

namespace JobPlatform

namespace RedisBroker

variable {b : RedisBroker} {r r' : Redis} {j k : JobID} {h : JobHash} {now limit attempts : Int} {ids : List JobID}

-- The delays that the configuration accepts.
structure Configured (b : RedisBroker) : Prop where
  base : 0 ≤ b.baseRetryDelay
  cap  : b.baseRetryDelay ≤ b.maxRetryDelay
  fits : b.maxRetryDelay < 2 ^ 63

-- The delay of a retry, where the configured delays are rounded down to milliseconds.
def backoffMillis (b : RedisBroker) (attempts : Int) : Int :=
  backoff attempts b.baseRetryDelay.milliseconds b.maxRetryDelay.milliseconds

namespace Configured

theorem milliseconds_nonneg (hb : b.Configured) : 0 ≤ b.baseRetryDelay.milliseconds :=
  Int.tdiv_nonneg hb.base (by decide)

theorem milliseconds_le (hb : b.Configured) : b.baseRetryDelay.milliseconds ≤ b.maxRetryDelay.milliseconds :=
  Int.tdiv_le_tdiv (by decide) hb.cap

theorem milliseconds_lt (hb : b.Configured) : b.maxRetryDelay.milliseconds < 2 ^ 1024 := by
  have hp : (2 : Int) ^ 63 ≤ 2 ^ 1024 := pow_le_pow_right₀ (by decide) (by decide)
  have hd : b.maxRetryDelay.milliseconds ≤ b.maxRetryDelay :=
    Int.tdiv_le_self _ (hb.base.trans hb.cap)
  exact (hd.trans_lt hb.fits).trans_le hp

theorem milliseconds_eq_zero_iff (hb : b.Configured) :
    b.baseRetryDelay.milliseconds = 0 ↔ b.baseRetryDelay < Duration.millisecond := by
  have hd (d : Int) (h : 0 ≤ d) : d.tdiv 1000000 = 0 ↔ d < 1000000 := by
    rw [Int.tdiv_eq_ediv_of_nonneg h]
    omega
  exact hd _ hb.base

-- The doubles of the script compute the delay, as infinity is capped.
theorem retryDelay_eq (hb : b.Configured) (ha : b.baseRetryDelay < Duration.millisecond → attempts ≤ 1024) :
    b.retryDelay attempts = .int (b.backoffMillis attempts) := by
  have hp : (if attempts - 1 < 0 then 0 else attempts - 1).toNat = (attempts - 1).toNat := by
    split <;> omega
  rw [retryDelay, hp, backoffMillis, backoff]
  cases hb.milliseconds_nonneg.eq_or_lt'
  case inl h0 =>
    have hn : (attempts - 1).toNat < 1024 := by
      have := ha (hb.milliseconds_eq_zero_iff.mp h0)
      omega
    have hc := hb.milliseconds_le
    rw [h0] at hc
    simp only [h0, Double.zero_mul_pow2 hn, Double.int_gt_int, not_lt.mpr hc, decide_false, zero_mul, min_eq_left hc]
    rfl
  case inr h0 =>
    have hc := hb.milliseconds_lt
    simp only [Double.int_mul_pow2 h0]
    generalize b.baseRetryDelay.milliseconds * 2 ^ (attempts - 1).toNat = d
    split
    case isTrue  =>
      rw [Double.int_gt_int]
      split
      case isTrue h  => rw [min_eq_right (of_decide_eq_true h).le]
      case isFalse h => rw [min_eq_left (not_lt.mp fun hl => h (decide_eq_true hl))]
    case isFalse hd =>
      rw [min_eq_right (hc.le.trans (not_lt.mp hd))]
      rfl

end Configured

-- The retry of a job can be scheduled and reported. The report stands for no time if it is zero or
-- has more than 14 digits, as it is printed with an exponent then.
structure Reportable (b : RedisBroker) (now attempts : Int) : Prop where
  finite  : b.baseRetryDelay < Duration.millisecond → attempts ≤ 1024
  nonzero : now + b.backoffMillis attempts ≠ 0
  digits  : (now + b.backoffMillis attempts).natAbs < 10 ^ 14

namespace Reportable

theorem retryAt_eq (hr : b.Reportable now attempts) (hb : b.Configured) :
    b.retryAt now attempts = .int (now + b.backoffMillis attempts) := by
  have hd := hr.digits
  rw [RedisBroker.retryAt, hb.retryDelay_eq hr.finite, Double.int_add_int]
  exact Double.ofInt_eq_int (by omega)

theorem reported (hr : b.Reportable now attempts) (hb : b.Configured) :
    reportedRetryAt (b.retryAt now attempts) = some (.ofUnixMilli (now + b.backoffMillis attempts)) := by
  rw [hr.retryAt_eq hb, reportedRetryAt, if_pos ⟨hr.nonzero, hr.digits⟩]

-- A time that is reported is the one that has been computed.
theorem of_reported (hb : b.Configured) (hr : (reportedRetryAt (b.retryAt now attempts)).isSome) :
    b.Reportable now attempts := by
  have hf (h0 : b.baseRetryDelay < Duration.millisecond) : attempts ≤ 1024 := by
    by_contra ha
    have hn : b.retryAt now attempts = .nan :=
      retryAt_eq_nan_iff.mpr ⟨hb.milliseconds_eq_zero_iff.mpr h0, not_le.mp ha⟩
    rw [hn] at hr
    cases hr
  rw [RedisBroker.retryAt, hb.retryDelay_eq hf, Double.int_add_int] at hr
  generalize hd : Double.ofInt (now + b.backoffMillis attempts) = d at hr
  cases d
  case posInf => cases hr
  case negInf => cases hr
  case nan    => cases hr
  case int n  =>
    have he := Double.eq_of_ofInt hd
    rw [reportedRetryAt] at hr
    split at hr
    case isFalse  => cases hr
    case isTrue h => exact ⟨hf, he ▸ h.left, he ▸ h.right⟩

end Reportable

-- Once the lease of a job that is retried has ended, the job is delayed.
theorem recoverAll_delayed {s : Score} (hn : ids.Nodup) (hl : ((r.zsets .activeLeases).score? j).isSome)
    (hj : r.jobs j = some h) (hs : recoveredState h = .retrying)
    (hr : (b.retryAt now h.attempts).toScore = some s) :
    (((b.recoverAll now ids r).1.zsets .activeLeases).score? j = none →
      ((b.recoverAll now ids r).1.zsets .delayed).score? j = some s) := by
  refine recoverAll_rule (P := fun r' => (r'.zsets .activeLeases).score? j = none →
    (r'.zsets .delayed).score? j = some s) hn ?absent ?present ?start
  case start  => exact fun he => by simp [he] at hl
  case absent =>
    intro r' i _ hu hi hp
    by_cases he : i = j
    case pos =>
      rw [he] at hu hi
      cases hi.symm.trans (hu.jobs.trans hj)
    case neg =>
      have hz : r'.Unchanged j (r'.zrem .activeLeases i) := .zrem (Ne.symm he)
      rwa [hz.score, hz.score]
  case present =>
    intro r' i h' _ hu _ hi hp
    by_cases he : i = j
    case neg =>
      have hz : r'.Unchanged j (b.recover now i h' (r'.zrem .activeLeases i)).1 :=
        .trans (.zrem (Ne.symm he)) (recover_unchanged (Ne.symm he))
      rwa [hz.score, hz.score]
    case pos =>
      subst he
      have hh : h' = h := by simpa [hi, hj] using hu.jobs
      subst hh
      intro _
      apply recover_rule (Q := fun x => (x.1.zsets .delayed).score? i = some s) <;> dsimp only
      case canceled => exact fun hc => by simp [recoveredState, hc] at hs
      case failed   => exact fun hc ha => by simp [recoveredState, hc, not_lt.mpr ha] at hs
      case aborted  => exact fun _ _ hx => by simp [hx, Double.toScore] at hr
      case retrying =>
        intro s' _ _ hs'
        rw [hr] at hs'
        cases hs'
        simp [Redis.zadd_score?]

-- The script gets to its end, and each job that it reports as retried is delayed until the reported time.
def Schedules (b : RedisBroker) (limit now : Int) (r : Redis) : Prop :=
  let x := b.recoverExpiredLua limit now r
  ∃ items, x.2 = .ok items ∧ ∀ item ∈ items, item.state = .retrying →
    ∃ t, item.retryAt = some t ∧ (x.1.zsets .delayed).score? item.jobID = some (.ofInt t.unixMilli)

theorem schedules_iff (hb : b.Configured) : b.Schedules limit now r ↔
    ∀ j ∈ expired limit now r, ∀ h, r.jobs j = some h → recoveredState h = .retrying →
      b.Reportable now h.attempts := by
  have hx : ReachesAll b now (expired limit now r) r (b.recoverExpiredLua limit now r) :=
    recoverAll_reachesAll SortedSet.rangeByScore_nodup mem_expired_leased
  have hres := hx.result
  constructor
  case mp  =>
    rintro ⟨items, he, hi⟩ j hm h hj hs
    rw [he] at hres
    split at hres
    case isTrue  => cases hres
    case isFalse =>
      cases hres
      have hrep : b.report now r j = some ⟨j, .retrying, reportedRetryAt (b.retryAt now h.attempts)⟩ := by
        simp [report, hj, hs]
      obtain ⟨t, ht, _⟩ := hi ⟨j, .retrying, _⟩ (mem_reports.mpr ⟨hm, hrep⟩) rfl
      exact .of_reported hb (Option.isSome_of_mem ht)
  case mpr =>
    intro h
    have ha : (expired limit now r).any (b.aborts now r) = false := by
      refine List.any_eq_false.mpr fun j hm hab => ?_
      obtain ⟨hash, hj, hab⟩ := (Option.any_eq_true ..).mp hab
      obtain ⟨hs, hab⟩ := of_decide_eq_true hab
      rw [(h j hm hash hj hs).retryAt_eq hb] at hab
      cases hab
    rw [ha, if_neg Bool.false_ne_true] at hres
    refine ⟨_, hres, fun item hm hs => ?_⟩
    obtain ⟨hm, hrep⟩ := mem_reports.mp hm
    obtain ⟨hash, hj, he⟩ := Option.map_eq_some_iff.mp hrep
    have hst : recoveredState hash = .retrying := by rw [← hs, ← he]
    have hr := h _ hm hash hj hst
    refine ⟨_, by rw [← he, if_pos hst, hr.reported hb], ?_⟩
    refine recoverAll_delayed SortedSet.rangeByScore_nodup (mem_expired_leased _ hm) hj hst ?_ ?_
    · rw [hr.retryAt_eq hb, Time.unixMilli_ofUnixMilli]
      rfl
    · exact hx.leases _ (by rwa [reached_eq ha])

namespace Sample

-- A delay of half a millisecond, of which nothing is left when it is rounded down.
def broker : RedisBroker :=
  { RedisBroker.sample with baseRetryDelay := 500 * 1000 }

-- The lease of a job expires after so many attempts.
def expired (attempts : Int) : Redis :=
  let hash : JobHash := { jobHash (buildJob 0 (.plain "email.send") "job-1") with
    state       := .active
    attempts    := attempts
    maxAttempts := some 2000
  }
  {
    jobs  := Function.update Redis.empty.jobs "job-1" (some hash)
    lists := Redis.empty.lists
    zsets := Function.update Redis.empty.zsets .activeLeases <| SortedSet.add ∅ "job-1" (.ofInt 1700000000000)
  }

theorem configured : broker.Configured where
  base := by decide
  cap  := by decide
  fits := by decide

end Sample

theorem schedules_iff_sample : Sample.broker.Schedules 100 1700000000000 (Sample.expired 3) ↔
    ∀ j ∈ expired 100 1700000000000 (Sample.expired 3), ∀ h, (Sample.expired 3).jobs j = some h →
      recoveredState h = .retrying → Sample.broker.Reportable 1700000000000 h.attempts :=
  schedules_iff Sample.configured

-- After 1025 attempts the delay is zero times infinity, and the job is in neither of the two sets.
theorem not_schedules_of_submillisecond :
    let x := Sample.broker.recoverExpiredLua 100 1700000000000 (Sample.expired 1025)
    Sample.broker.Configured ∧ ¬Sample.broker.Schedules 100 1700000000000 (Sample.expired 1025) ∧
    (x.1.zsets .activeLeases).score? "job-1" = none ∧ (x.1.zsets .delayed).score? "job-1" = none := by
  have hr : (Sample.broker.recoverExpiredLua 100 1700000000000 (Sample.expired 1025)).2 = .error .scriptError := by
    decide +kernel
  refine ⟨Sample.configured, fun ⟨items, he, _⟩ => ?_, by decide +kernel, by decide +kernel⟩
  cases hr.symm.trans he

end RedisBroker

namespace Scheduler

variable {job : Job} {items : List RecoveredLease}

theorem follows_any {α : Type} (p : Program α) : p.Follows (.any ..) (fun _ _ => True) () := by
  induction p
  case ret         => trivial
  case call c k hi => exact ⟨trivial, fun r _ => hi r⟩

theorem markRetried_follows (t : Time) : (markRetried job (some t)).Follows (.any ..) (fun res _ => res = .ok ()) () := by
  unfold markRetried
  cases job.startedAt
  case none   => exact ⟨trivial, fun _ _ => ⟨trivial, fun _ _ => ⟨trivial, fun _ _ => ⟨trivial, fun _ _ => rfl⟩⟩⟩⟩
  case some _ => exact ⟨trivial, fun _ _ => ⟨trivial, fun _ _ => ⟨trivial, fun _ _ => rfl⟩⟩⟩

-- Whatever the stores answer, the scheduler does not read the time of a retry that has none.
theorem markRecovered_follows (h : ∀ item ∈ items, item.state = .retrying → item.retryAt.isSome) :
    (markRecovered items).Follows (.any ..) (fun res _ => res ≠ .error .nilDereference) () := by
  induction items
  case nil                => exact nofun
  case cons item items hi =>
    have ⟨ht, h⟩ := List.forall_mem_cons.mp h
    have hi := hi h
    refine ⟨trivial, fun res _ => ?_⟩
    match res with
    | .error _ => exact hi
    | .ok job  =>
      simp only [Prog.ret_bind]
      cases hs : item.state
      case retrying =>
        have ⟨t, ht⟩ := Option.isSome_iff_exists.mp (ht hs)
        rw [ht]
        refine Prog.Follows.bind <| (markRetried_follows t).mono fun res _ hr => ?_
        rw [hr]
        exact hi
      case failed   => exact Prog.Follows.bind <| (follows_any (markFailed job)).mono fun _ _ _ => hi
      case canceled => exact Prog.Follows.bind <| (follows_any (markCanceled job)).mono fun _ _ _ => hi
      all_goals exact hi

theorem follows_of_schedules {b : RedisBroker} {r : Redis} {limit now : Int} (h : b.Schedules limit now r)
    (hr : (b.recoverExpiredLua limit now r).2 = .ok items) :
    (markRecovered items).Follows (.any ..) (fun res _ => res ≠ .error .nilDereference) () := by
  have ⟨items', he, h⟩ := h
  cases hr.symm.trans he
  refine markRecovered_follows fun item hm hs => ?_
  have ⟨t, ht, _⟩ := h item hm hs
  exact Option.isSome_of_mem ht

end Scheduler
end JobPlatform
