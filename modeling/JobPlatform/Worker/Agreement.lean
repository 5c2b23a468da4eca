import JobPlatform.System.Agreement

namespace JobPlatform

variable {w w' : World} {j : JobID} {job : Job}

namespace Worker

-- What is known about the dependents that a worker has read.
structure Snapshot (j : JobID) (dependents : List Job) (w : World) : Prop where
  known   : ∀ d ∈ dependents, (w.postgres.summaries d.id).isSome
  current : ∀ d ∈ dependents, d.id = j → w.postgres.summaries j = some d.summary
  nodup   : (dependents.map (·.id)).Nodup

theorem Snapshot.env {dependents : List Job} (h : Snapshot j dependents w) (hw : SameSummaries w w') :
    Snapshot j dependents w' where
  known   := hw.postgres ▸ h.known
  current := hw.postgres ▸ h.current
  nodup   := h.nodup

-- Changing the row of the first dependent does not affect what is known about the others.
theorem Snapshot.tail {rest : List Job} {g : Summary → Summary} (h : Snapshot j (job :: rest) w)
    (hp : ∀ k, w'.postgres.summaries k =
      if k = job.id then (w.postgres.summaries k).map g else w.postgres.summaries k) :
    Snapshot j rest w' := by
  have hn := List.nodup_cons.mp h.nodup
  have hp (d) (hd : d ∈ rest) : w'.postgres.summaries d.id = w.postgres.summaries d.id := by
    have hm : d.id ∈ rest.map (·.id) := List.mem_map_of_mem hd
    rw [hp, if_neg (ne_of_mem_of_not_mem hm hn.left)]
  constructor
  case known   => exact fun d hd => hp d hd ▸ h.known d (List.mem_cons_of_mem _ hd)
  case nodup   => exact hn.right
  case current =>
    intro d hd he
    subst he
    rw [hp d hd, h.current d (List.mem_cons_of_mem _ hd) rfl]

theorem resolveDependent_ensures {rest : List Job} {now : Time} (h : Good j w) (hb : job.state = .blocked)
    (hs : Snapshot j (job :: rest) w) :
    (resolveDependent job now).Ensures unguarded SameSummaries
      (fun _ w' => Good j w' ∧ Snapshot j rest w') w := by
  refine fun w₁ hw₁ => ?_
  have h := h.env hw₁
  have hs := hs.env hw₁
  simp only [Prog.ret_bind]
  refine quiet_dependencyReadiness.ensures_bind fun ready w₂ hw₂ => ?_
  have h := h.env (IsTrans.trans _ _ _ (World.exec_same rfl) hw₂)
  have hs := hs.env (IsTrans.trans _ _ _ (World.exec_same rfl) hw₂)
  split
  case isTrue =>
    refine fun w₃ hw₃ w₄ hw₄ w₅ hw₅ w₆ hw₆ => ?_
    have hw := IsTrans.trans _ _ _ hw₃ (IsTrans.trans _ _ _ (World.exec_same rfl) hw₄)
    have h := h.env hw
    have hs := hs.env hw
    have hr (k) : w₆.redis.summaries k =
        if k = job.id then some (releasedJob job now).summary else w₄.redis.summaries k :=
      (congrFun hw₆.redis k).trans <| (congrFun hw₅.redis k).trans RedisBroker.enqueue_summaries
    have hp (k) : w₆.postgres.summaries k =
        if k = job.id then (w₄.postgres.summaries k).map ({ (releasedJob job now).summary with id := ·.id })
        else w₄.postgres.summaries k := by
      rw [← show w₅.postgres.summaries k = w₄.postgres.summaries k from congrFun hw₅.postgres k]
      exact (congrFun hw₆.postgres k).trans Postgres.markJobQueued_summaries
    exact ⟨h.replace (releasedJob job now) (hs.known job List.mem_cons_self) hr hp, hs.tail hp⟩
  case isFalse =>
    generalize hr : (if ready.2 = "" then _ else ready.2) = reason
    split
    case isTrue  => exact fun w₃ hw₃ => ⟨h.env hw₃, (hs.tail (g := id) (by simp)).env hw₃⟩
    case isFalse =>
      refine fun w₃ hw₃ w₄ hw₄ => ?_
      have h := h.env hw₃
      have hs := hs.env hw₃
      have hp (k) : w₄.postgres.summaries k =
          if k = job.id then (w₃.postgres.summaries k).map ({ (blockedJob job reason now).summary with id := ·.id })
          else w₃.postgres.summaries k :=
        (congrFun hw₄.postgres k).trans Postgres.markJobQueued_summaries
      refine ⟨h.rewrite hw₄.redis hp (fun _ => rfl) fun he s hj => ?_, hs.tail hp⟩
      rw [hs.current job List.mem_cons_self he.symm] at hj
      cases hj
      simp [blockedJob, Job.summary, hb]

theorem resolveAll_ensures {dependents : List Job} {now : Time} (h : Good j w) (hs : Snapshot j dependents w) :
    (resolveAll now dependents).Ensures unguarded SameSummaries (fun _ w' => Good j w') w := by
  induction dependents generalizing w
  case nil           => exact fun w' hw => h.env hw
  case cons d rest hi =>
    unfold resolveAll
    by_cases hb : d.state = .blocked
    case pos =>
      simp only [hb, if_true]
      refine .bind <| (resolveDependent_ensures h hb hs).mono fun _ w' ⟨h, hs⟩ => hi h hs
    case neg =>
      simp only [hb, if_false]
      exact hi h (hs.tail (g := id) (by simp))

theorem listDependentJobs_snapshot (hk : Keyed w) {u : JobID} :
    Snapshot j (w.postgres.listDependentJobs u) w := by
  have hrow {i d} (hi : w.postgres.jobs i = some d) : d.id = i :=
    hk i d.summary <| .inr <| by simp [Postgres.summaries, hi]
  let ids := (w.postgres.dependencies.edges.filter (·.dependsOnJobID = u)).map (·.jobID)
  have hp : (w.postgres.listDependentJobs u).Perm (ids.filterMap w.postgres.jobs) := by
    rw [List.filterMap_map]
    exact List.perm_insertionSort ..
  have hm {d} (hd : d ∈ w.postgres.listDependentJobs u) : w.postgres.jobs d.id = some d := by
    obtain ⟨i, _, hi⟩ := List.mem_filterMap.mp <| hp.mem_iff.mp hd
    rwa [hrow hi]
  have hids : ids.Nodup := by
    refine List.Nodup.map_on ?_ (w.postgres.dependencies.nodup.filter _)
    rintro ⟨_, _⟩ he ⟨_, _⟩ he' h
    simp_all
  have hjobs : (w.postgres.listDependentJobs u).Nodup :=
    hp.nodup_iff.mpr <| hids.filterMap fun i i' d hi hi' => (hrow hi).symm.trans (hrow hi')
  constructor
  case known   => exact fun d hd => by simp [Postgres.summaries, hm hd]
  case current => exact fun d hd he => by simp [Postgres.summaries, ← he, hm hd]
  case nodup   =>
    refine hjobs.map_on fun d hd d' hd' he => Option.some.inj ?_
    rw [← hm hd, ← hm hd', he]

theorem resolveDependents_ensures {now : Time} (h : Good j w) :
    (resolveDependents job now).Ensures unguarded SameSummaries (fun _ w' => Good j w') w := by
  intro w₁ hw₁
  have h := h.env <| IsTrans.trans _ _ _ hw₁ (World.exec_same (c := .repo (.listDependentJobs job.id)) rfl)
  exact resolveAll_ensures h (listDependentJobs_snapshot h.keyed)

end Worker

namespace Runtime

open Worker

variable {r : Runtime} {leaseToken : Token} {started finished : Time}

theorem handleFailure_ensures {err : HandlerError} (h : Good j w) :
    (r.handleFailure job leaseToken err started finished).Ensures unguarded SameSummaries
      (fun _ w' => Good j w') w := by
  unfold handleFailure
  by_cases ha : job.attempts < job.maxAttempts
  case pos =>
    have hr : r.failureRetryAt job finished = some _ := if_pos ha
    have hs : (failedJob job err started finished).state = .retrying := if_pos ha
    rw [hr]
    refine Prog.ensures_of_exec fun w₁ hw₁ w₂ ok he => ?_
    have h := h.env hw₁
    match ok with
    | .error _  => cases he
    | .ok false => exact fun w₃ hw₃ => (h.env (World.exec_retry he)).env hw₃
    | .ok true  =>
      refine fun w₃ hw₃ w₄ hw₄ w₅ hw₅ => ?_
      have h := h.ended (World.exec_retry he) hw₃ (hs ▸ (World.marks_retrying ..)) fun _ => rfl
      exact ((h.env hw₄).env (World.exec_same rfl)).env hw₅
  case neg =>
    have hr : r.failureRetryAt job finished = none := if_neg ha
    have hs : (failedJob job err started finished).state = .failed := if_neg ha
    rw [hr]
    refine Prog.ensures_of_exec fun w₁ hw₁ w₂ ok he => ?_
    have h := h.env hw₁
    match ok with
    | .error _  => cases he
    | .ok false => exact fun w₃ hw₃ => (h.env (World.exec_fail he)).env hw₃
    | .ok true  =>
      refine fun w₃ hw₃ => ?_
      have h := h.ended (World.exec_fail he) hw₃ (hs ▸ World.marks_failed _) fun _ => rfl
      refine quiet_updateIdempotencyOutcome.ensures_bind fun _ w₄ hw₄ => ?_
      refine fun w₅ hw₅ w₆ hw₆ => resolveDependents_ensures ?_
      exact (((h.env hw₄).env hw₅).quiet rfl |>.env hw₆).quiet rfl

theorem finish_ensures {outcome : Except HandlerError String} (h : Good j w) :
    (r.finish job leaseToken outcome started).Ensures unguarded SameSummaries (fun _ w' => Good j w') w := by
  refine Prog.ensures_of_exec fun w₁ hw₁ w₂ finished he => ?_
  cases he
  have h := (h.env hw₁).quiet (c := .now) rfl
  cases outcome
  case error err => exact handleFailure_ensures h
  case ok result =>
    refine Prog.ensures_of_exec fun w₃ hw₃ w₄ ok he => ?_
    have h := h.env hw₃
    match ok with
    | .error _  => cases he
    | .ok false => exact fun w₅ hw₅ => (h.env (World.exec_complete he)).env hw₅
    | .ok true  =>
      refine fun w₅ hw₅ => ?_
      have h := h.ended (World.exec_complete he) hw₅ (World.marks_completed _) fun _ => rfl
      refine quiet_updateIdempotencyOutcome.ensures_bind fun _ w₆ hw₆ => ?_
      exact fun w₇ hw₇ => resolveDependents_ensures <| ((h.env hw₆).env hw₇).quiet rfl

-- What the stores keep about a job that has been leased, although the database does not know it yet.
structure Leased (j : JobID) (job : Job) (w : World) : Prop where
  keyed : Keyed w
  other : j ≠ job.id → Agree j w
  hash  : j = job.id → w.redis.summaries j = some job.summary
  row   : j = job.id → (w.postgres.summaries j).isSome

theorem Leased.env (h : Leased j job w) (hw : SameSummaries w w') : Leased j job w' where
  keyed i s hs := h.keyed i s <| by rwa [hw.redis, hw.postgres] at hs
  other hj     := by rw [Agree, hw.redis, hw.postgres, h.other hj]
  hash hj      := hw.redis ▸ h.hash hj
  row hj       := hw.postgres ▸ h.row hj

theorem Leased.activated (h : Leased j job w) (hm : Marks job.id ({ job.summary with id := ·.id }) w w') :
    Good j w' := by
  constructor
  case keyed =>
    intro k s hs
    rw [hm.left, hm.right] at hs
    cases hs
    case inl hs => exact h.keyed k s (.inl hs)
    case inr hs =>
      split at hs
      case isFalse => exact h.keyed k s (.inr hs)
      case isTrue  =>
        obtain ⟨s', hs, he⟩ := Option.map_eq_some_iff.mp hs
        rw [← he, ← h.keyed k s' (.inr hs)]
  case agree =>
    rw [Agree, hm.left, hm.right]
    split
    case isFalse hj => exact h.other hj
    case isTrue hj  =>
      obtain ⟨s, hs⟩ := Option.isSome_iff_exists.mp (h.row hj)
      have hi : s.id = job.id := hj ▸ h.keyed j s (.inr hs)
      rw [h.hash hj, hs, Option.map_some, hi]
      rfl

theorem execute_ensures {policies : List RateLimitPolicy} {handling : Option Handling} (h : Leased j job w) :
    (r.execute job leaseToken policies handling started).EnsuresAlone unguarded SameSummaries
      (fun _ w' => Good j w') w := by
  have h := (h.activated (World.marks_active _)).quiet (c := .repo (.upsertJobAttempt <|
    r.attempt job leaseToken "started" none "" started none)) rfl
  cases handling
  case none          => exact (handleFailure_ensures h).alone
  case some handling => exact finish_ensures (h.env ⟨rfl, rfl⟩)

-- What is preserved by everything that can happen to a job when it is throttled.
theorem throttle_ensures (Inv : World → Prop) {retryAt : Time} {reason : String}
    (env : ∀ w w', Inv w → SameSummaries w w' → Inv w')
    (ends : ∀ w w', Inv w →
      EndsLease job.id ({ · with state := .throttled, runAt := retryAt.unixMilli }) w w' true → Inv w')
    (marks : ∀ w w', Inv w → Marks job.id ({ · with state := .throttled }) w w' → Inv w') (h : Inv w) :
    (throttle job leaseToken retryAt reason).Ensures unguarded SameSummaries (fun _ w' => Inv w') w := by
  intro w₁ hw₁ w₂ hw₂
  refine Prog.ensures_of_exec fun w₃ hw₃ w₄ ok he => ?_
  have hw : SameSummaries w w₃ := IsTrans.trans _ _ _ hw₁ <| IsTrans.trans _ _ _ (World.exec_same rfl) <|
    IsTrans.trans _ _ _ hw₂ <| IsTrans.trans _ _ _ (World.exec_same (c := .now) rfl) hw₃
  have h := env w w₃ h hw
  match ok with
  | .error _  => cases he
  | .ok false => exact fun w₅ hw₅ => env _ _ (env _ _ h (World.exec_requeueThrottled he)) hw₅
  | .ok true  =>
    intro w₅ hw₅ w₆ hw₆
    have h := env _ _ (ends w₃ w₄ h (World.exec_requeueThrottled he)) hw₅
    exact env _ _ (marks _ _ h (World.marks_throttled _)) hw₆

-- Whether the limiter admits a job that has been leased.
def admission (r : Runtime) (leased : LeasedJob) (policies : List RateLimitPolicy) : Program Bool := do
  let started ← timeNow
  if r.limited && policies ≠ [] then
    match ← Limiter.evaluateAndAcquire (r.leasedJob leased started) policies r.leaseTTL with
    | .error _     => return false
    | .ok decision => return decision.allowed
  else
    return true

-- A job is executed if it is admitted, and throttled otherwise.
theorem process_rule {Env : World → World → Prop} [Tolerates Env] [Std.Refl Env] [IsTrans World Env]
    {post : World → Prop} {leased : LeasedJob} {policies : List RateLimitPolicy}
    {handling : Option Handling} (env : ∀ w w', post w → Env w w' → post w')
    (admitted : ((r.admission leased policies).run World.exec w).2 → ∀ w' started, Env w w' →
      (r.execute (r.leasedJob leased started) leased.leaseToken policies handling started).EnsuresAlone
        unguarded Env (fun _ w' => post w') w')
    (denied : ((r.admission leased policies).run World.exec w).2 = false →
      ∀ w' started retryAt reason, Env w w' →
        (throttle (r.leasedJob leased started) leased.leaseToken retryAt reason).Ensures
          unguarded Env (fun _ w' => post w') w') :
    (r.process leased policies handling).EnsuresAlone unguarded Env (fun _ w' => post w') w := by
  have hn : Env w (w.exec .now).1 := Tolerates.tame w rfl
  have he : Prog.Quiet _ Env _ := quiet_evaluateAndAcquire (r.leasedJob leased w.now) policies r.leaseTTL
  by_cases hl : r.limited && policies ≠ []
  case neg =>
    have ha : ((r.admission leased policies).run World.exec w).2 = true := by
      simp only [admission, timeNow, Prog.bind_eq, hl]
      rfl
    have h := admitted ha (w.exec .now).1 w.now hn
    simp only [process, timeNow, Prog.bind_eq, hl]
    exact h
  case pos =>
    have hx : Env w ((Limiter.evaluateAndAcquire (r.leasedJob leased w.now) policies r.leaseTTL).run
        World.exec (w.exec .now).1).1 := IsTrans.trans _ _ _ hn he.run
    simp only [admission, timeNow, Prog.bind_eq, hl, if_true, Prog.run_bind] at admitted denied
    simp only [process, timeNow, Prog.bind_eq, hl, if_true]
    refine he.forkFree.ensuresAlone_bind.mpr ?_
    simp only [Prog.run_perform, World.exec_now, unguarded_exec] at admitted denied hx ⊢
    generalize (Limiter.evaluateAndAcquire (r.leasedJob leased w.now) policies r.leaseTTL).run World.exec _ = x
      at admitted denied hx ⊢
    obtain ⟨w', res⟩ := x
    cases res
    case error e     => exact (denied rfl w' w.now _ _ hx).alone
    case ok decision =>
      by_cases ha : decision.allowed
      case neg =>
        simp only [ha]
        exact (denied (by simp [ha]) w' w.now _ _ hx).alone
      case pos =>
        simp only [ha, if_true]
        refine .bind <| (admitted ha w' w.now hx).mono fun _ w₁ h₁ => ?_
        exact quiet_forConcurrency.ensures fun _ w₂ h₂ => env w₁ w₂ h₁ h₂

-- The round of the worker leases the job, but the limiter does not admit it.
def Throttles (r : Runtime) (policies : List RateLimitPolicy) (j : JobID) (w : World) : Prop :=
  match (Broker.dequeue r.workerID r.queues r.leaseTTL).run World.exec w with
  | (w', .ok (some leased)) =>
    leased.job.id = j ∧ ((r.admission leased policies).run World.exec w').2 = false
  | _ => False

instance {policies : List RateLimitPolicy} : Decidable (r.Throttles policies j w) := by
  unfold Throttles
  split <;> infer_instance

-- The broker leases a job, and the worker gets it as it is stored afterwards.
structure Leases (w w' : World) (leased : LeasedJob) (s : Summary) : Prop where
  postgres : w'.postgres = w.postgres
  before   : w.redis.summaries leased.job.id = some s
  after    : leased.job.summary = RedisBroker.leasedSummary s
  redis    : ∀ k, w'.redis.summaries k = if k = leased.job.id
    then (w.redis.summaries k).map RedisBroker.leasedSummary
    else w.redis.summaries k

theorem dequeue_run (workerID : WorkerID) (queues : List QueueName) (leaseTTL : Duration) (hk : Keyed w) :
    ∃ w' res, (Broker.dequeue workerID queues leaseTTL).run World.exec w = (w', .ok res) ∧
      match res with
      | none        => SameSummaries w w'
      | some leased => ∃ s, Leases w w' leased s := by
  have hl := RedisBroker.dequeueLua_leases (b := w.broker) (r := w.redis) workerID leaseTTL.milliseconds w.now.unixMilli
    (readyKeysForQueues queues)
  have hb := @World.exec_broker { w with calls := w.calls + 1 } (.dequeue workerID queues leaseTTL w.now)
  simp only [Broker.dequeue, Prog.bind_eq]
  rw [Prog.run_bind, timeNow_exec, Prog.run_bind, broker_exec, hb]
  simp only [RedisBroker.exec, Prod.map_fst, Prod.map_snd, id]
  generalize w.broker.dequeueLua workerID leaseTTL.milliseconds w.now.unixMilli (readyKeysForQueues queues)
    w.redis = x at hl ⊢
  match x with
  | (redis, none)                     => exact ⟨_, none, rfl, hl, rfl⟩
  | (redis, some (jobID, leaseToken)) =>
    have ⟨hs, hr⟩ := hl
    have ⟨s, hs⟩ := Option.isSome_iff_exists.mp hs
    have hj : redis.summaries jobID = some (RedisBroker.leasedSummary s) := by
      rw [hr, if_pos rfl, hs, Option.map_some]
    have ⟨h, hj, he⟩ := Option.map_eq_some_iff.mp hj
    have hi : h.id = jobID := (congrArg Summary.id he).trans (hk jobID s (.inl hs))
    refine ⟨{ w with calls := w.calls + 3, redis }, some ⟨{ jobFromHash h with leaseToken }, leaseToken⟩, ?_, s, ?_⟩
    · dsimp only
      rw [Prog.run_bind, broker_exec, World.exec_broker]
      simp only [RedisBroker.exec, RedisBroker.loadJob, hj]
      rfl
    · have hid : (jobFromHash h).id = jobID := hi
      subst hid
      exact ⟨rfl, hs, jobFromHash_summary.trans he, hr⟩

theorem dequeue_forkFree : (Broker.dequeue r.workerID r.queues r.leaseTTL).ForkFree unguarded := by
  refine ⟨rfl, fun now => ⟨rfl, fun res => ?_⟩⟩
  match res with
  | .error _       => trivial
  | .ok none       => trivial
  | .ok (some _)   =>
    refine ⟨rfl, fun job => ?_⟩
    cases job <;> trivial

theorem Leases.leased {leased : LeasedJob} {s : Summary} (h : Good j w) (hl : Leases w w' leased s) :
    Leased j (r.leasedJob leased started) w' := by
  have hs : (r.leasedJob leased started).summary = RedisBroker.leasedSummary s := by
    have he : (r.leasedJob leased started).summary = { leased.job.summary with state := .active } := rfl
    rw [he, hl.after]
    rfl
  have hi : (r.leasedJob leased started).id = leased.job.id := rfl
  constructor
  case other => exact fun hj => by rw [Agree, hl.redis, hl.postgres, h.agree, if_neg (hi ▸ hj)]
  case row   =>
    intro hj
    rw [hl.postgres, ← h.agree, hj, hi, hl.before]
    rfl
  case hash  =>
    intro hj
    rw [hl.redis, hj, hi, if_pos rfl, hl.before, hs]
    rfl
  case keyed =>
    intro k s' hs'
    rw [hl.postgres, hl.redis] at hs'
    cases hs'
    case inr hs' => exact h.keyed k s' (.inr hs')
    case inl hs' =>
      split at hs'
      case isFalse => exact h.keyed k s' (.inl hs')
      case isTrue  =>
        obtain ⟨s, hs, he⟩ := Option.map_eq_some_iff.mp hs'
        rw [← he, ← h.keyed k s (.inl hs)]
        rfl

-- The stores disagree about the attempts of a job.
def Ahead (j : JobID) (w : World) : Prop :=
  ∃ s s', w.redis.summaries j = some s ∧ w.postgres.summaries j = some s' ∧ s.attempts ≠ s'.attempts

theorem Ahead.not_agree (h : Ahead j w) : ¬Agree j w := by
  have ⟨s, s', hs, hs', hn⟩ := h
  intro ha
  rw [Agree, hs, hs'] at ha
  cases ha
  exact hn rfl

theorem throttle_ahead {retryAt : Time} {reason : String} (h : Ahead j w) :
    (throttle job leaseToken retryAt reason).Ensures unguarded SameSummaries (fun _ w' => Ahead j w') w := by
  apply throttle_ensures (Ahead j)
  case h   => exact h
  case env =>
    intro w w' ⟨s, s', hs, hs', hn⟩ hw
    exact ⟨s, s', hw.redis ▸ hs, hw.postgres ▸ hs', hn⟩
  case ends =>
    intro w w' ⟨s, s', hs, hs', hn⟩ ⟨hp, hr⟩
    have hr := hr j
    rw [hs] at hr
    split at hr
    · exact ⟨_, s', hr, hp ▸ hs', hn⟩
    · exact ⟨s, s', hr, hp ▸ hs', hn⟩
  case marks =>
    intro w w' ⟨s, s', hs, hs', hn⟩ ⟨hr, hp⟩
    have hp := hp j
    rw [hs'] at hp
    split at hp
    · exact ⟨s, _, hr ▸ hs, hp, hn⟩
    · exact ⟨s, s', hr ▸ hs, hp, hn⟩

-- Throttling a job does not affect the others.
theorem throttle_good {retryAt : Time} {reason : String} (h : Leased j job w) (hj : j ≠ job.id) :
    (throttle job leaseToken retryAt reason).Ensures unguarded SameSummaries (fun _ w' => Good j w') w := by
  apply throttle_ensures (Good j)
  case h     => exact ⟨h.keyed, h.other hj⟩
  case env   => exact fun w w' h hw => h.env hw
  case ends  =>
    intro w w' h ⟨hp, hr⟩
    exact h.change (g := fun s => s) hr (by simp [hp]) (fun _ => rfl) (fun _ => rfl) (absurd · hj)
  case marks => exact fun w w' h ⟨hr, hp⟩ => h.rewrite (by rw [hr]) hp (fun _ => rfl) (absurd · hj)

theorem Leases.ahead {leased : LeasedJob} {s : Summary} (h : Good j w) (hl : Leases w w' leased s)
    (hj : leased.job.id = j) : Ahead j w' := by
  have hb : w.redis.summaries j = some s := hj ▸ hl.before
  refine ⟨RedisBroker.leasedSummary s, s, ?_, ?_, by simp [RedisBroker.leasedSummary]⟩
  · rw [hl.redis, if_pos hj.symm, hb, Option.map_some]
  · rw [hl.postgres, ← h.agree, hb]

variable {policies : List RateLimitPolicy} {handler : Job → Option Handling}

-- A round of the worker keeps a job in agreement, unless it leases the job only to throttle it.
theorem work_good (h : Good j w) (hn : ¬r.Throttles policies j w) :
    (r.work policies handler).EnsuresAlone unguarded SameSummaries (fun _ w' => Good j w') w := by
  have ⟨w', res, he, hl⟩ := dequeue_run r.workerID r.queues r.leaseTTL h.keyed
  refine dequeue_forkFree.ensuresAlone_bind.mpr ?_
  rw [unguarded_exec, he]
  match res with
  | none        => exact h.env hl
  | some leased =>
    have ⟨s, hl⟩ := hl
    refine process_rule (fun _ _ h hw => h.env hw) (fun _ w₁ started hw => ?_) (fun hd w₁ _ _ _ hw => ?_)
    · exact execute_ensures ((hl.leased h).env hw)
    · have hj : j ≠ leased.job.id := fun hj => hn (by simp [Throttles, he, hj, hd])
      exact throttle_good ((hl.leased h).env hw) hj

theorem work_ahead (h : Good j w) (ht : r.Throttles policies j w) :
    (r.work policies handler).EnsuresAlone unguarded SameSummaries (fun _ w' => Ahead j w') w := by
  have ⟨w', res, he, hl⟩ := dequeue_run r.workerID r.queues r.leaseTTL h.keyed
  refine dequeue_forkFree.ensuresAlone_bind.mpr ?_
  rw [unguarded_exec, he]
  match res with
  | none        => exact (by simp [Throttles, he] at ht)
  | some leased =>
    have ⟨s, hl⟩ := hl
    have ⟨hj, ht⟩ : leased.job.id = j ∧ ((r.admission leased policies).run World.exec w').2 = false := by
      simpa [Throttles, he] using ht
    have hw {w w' : World} : Ahead j w → SameSummaries w w' → Ahead j w'
      | ⟨s, s', hs, hs', hn⟩, hw => ⟨s, s', hw.redis ▸ hs, hw.postgres ▸ hs', hn⟩
    refine process_rule (fun _ _ => hw) (fun ha => by simp [ht] at ha) fun _ w₁ _ _ _ hw₁ => ?_
    exact throttle_ahead <| hw (hl.ahead h hj) hw₁

end Runtime
end JobPlatform
