import JobPlatform.System.DeadLetters
import JobPlatform.Worker.Agreement

namespace JobPlatform

variable {w w' : World} {j : JobID} {job : Job}

namespace Worker

-- Resolving a dependent concerns no dead letter, as both stores know the dependent already.
theorem resolveDependent_calm {now : Time} (h : Paired w) (hj : (w.postgres.summaries job.id).isSome) :
    (resolveDependent job now).Ensures unguarded Calm (fun _ w' => Calm w w') w := by
  refine fun w₁ hw₁ => ?_
  simp only [Prog.ret_bind]
  have hw₁ : Calm w _ := IsTrans.trans _ _ _ hw₁ <| World.exec_calm (c := .repo (.listDependencies job.id)) rfl
  refine quiet_dependencyReadiness.ensures_bind fun ready w₂ hw₂ => ?_
  have hw₂ : Calm w w₂ := IsTrans.trans _ _ _ hw₁ hw₂
  split
  case isTrue =>
    refine fun w₃ hw₃ w₄ hw₄ w₅ hw₅ w₆ hw₆ => ?_
    have hw₄ : Calm w w₄ := IsTrans.trans _ _ _ hw₂ <| IsTrans.trans _ _ _ hw₃ <|
      IsTrans.trans _ _ _ (World.exec_calm (c := .now) rfl) hw₄
    have hj₄ : (w₄.postgres.summaries (releasedJob job now).id).isSome := hw₄.isSome ▸ hj
    have hw₅ : Calm w₄ w₅ := IsTrans.trans _ _ _ (World.exec_enqueue_calm (h.calm hw₄) hj₄) hw₅
    have hm := World.exec_calm (w := w₅) (c := .repo (.markJobQueued (releasedJob job now))) rfl
    exact IsTrans.trans _ _ _ hw₄ <| IsTrans.trans _ _ _ hw₅ <| IsTrans.trans _ _ _ hm hw₆
  case isFalse =>
    generalize hr : (if ready.2 = "" then _ else ready.2) = reason
    split
    case isTrue  => exact fun w₃ hw₃ => IsTrans.trans _ _ _ hw₂ hw₃
    case isFalse =>
      refine fun w₃ hw₃ w₄ hw₄ => ?_
      have hm := World.exec_calm (w := w₃) (c := .repo (.markJobQueued (blockedJob job reason now))) rfl
      exact IsTrans.trans _ _ _ hw₂ <| IsTrans.trans _ _ _ hw₃ <| IsTrans.trans _ _ _ hm hw₄

theorem resolveAll_calm {dependents : List Job} {now : Time} (h : Paired w)
    (hd : ∀ d ∈ dependents, (w.postgres.summaries d.id).isSome) :
    (resolveAll now dependents).Ensures unguarded Calm (fun _ w' => Calm w w') w := by
  induction dependents generalizing w
  case nil            => exact fun w' hw => hw
  case cons d rest hi =>
    have ⟨hd, hs⟩ := List.forall_mem_cons.mp hd
    unfold resolveAll
    by_cases hb : d.state = .blocked
    case neg =>
      simp only [hb, if_false]
      exact hi h hs
    case pos =>
      simp only [hb, if_true]
      refine .bind <| (resolveDependent_calm h hd).mono fun _ w' hw => ?_
      have hi := hi (h.calm hw) fun d hm => hw.isSome ▸ hs d hm
      exact hi.mono fun _ w'' hw' => IsTrans.trans _ _ _ hw hw'

theorem mem_listDependentJobs {p : Postgres} {u : JobID} {d : Job} (h : d ∈ p.listDependentJobs u) :
    ∃ j, p.jobs j = some d := by
  have hm := (List.perm_insertionSort _ _).mem_iff.mp h
  have ⟨e, _, hj⟩ := List.mem_filterMap.mp hm
  exact ⟨e.jobID, hj⟩

theorem resolveDependents_calm {now : Time} (h : Paired w) :
    (resolveDependents job now).Ensures unguarded Calm (fun _ w' => Calm w w') w := by
  intro w₁ hw₁
  have hw₂ : Calm w₁ (w₁.exec (.repo (.listDependentJobs job.id))).1 := World.exec_calm rfl
  have hw : Calm w _ := IsTrans.trans _ _ _ hw₁ hw₂
  refine (resolveAll_calm (h.calm hw) fun d hm => ?_).mono fun _ w' hw' => IsTrans.trans _ _ _ hw hw'
  have ⟨j, hj⟩ := mem_listDependentJobs hm
  have hd := (h.calm hw₁).row_id hj
  subst hd
  rw [hw₂.isSome, Postgres.summaries, hj]
  rfl

end Worker

-- A dead letter of the job `j` is on its way from the broker to the database.
structure Posting (j : JobID) (queueName : QueueName) (w : World) : Prop where
  paired : Paired w
  filed  : Filed w.redis.dlq (Function.update w.postgres.buried j (some queueName))
  row    : (w.postgres.summaries j).isSome

-- The jobs and their dead letters are in both of the stores.
structure Kept (w : World) : Prop where
  paired   : Paired w
  mirrored : Mirrored w

theorem Kept.calm (h : Kept w) (hw : Calm w w') : Kept w' :=
  ⟨h.paired.calm hw, h.mirrored.calm hw⟩

-- A failure which the broker rejects changes nothing.
theorem World.exec_fail_rejected {leaseToken : Token} {errMessage : String} {failedAt : Time}
    (he : w.exec (.broker (.fail job leaseToken errMessage none failedAt)) = (w', .ok false)) : Calm w w' := by
  have hw : w' = _ := congrArg Prod.fst he.symm
  have hr : (RedisBroker.failLua job leaseToken errMessage none failedAt.unixMilli w.redis).2 = false :=
    Except.ok.inj <| congrArg Prod.snd he
  have hr : (RedisBroker.failLua job leaseToken errMessage none failedAt.unixMilli w.redis).1 = w.redis := by
    revert hr
    unfold RedisBroker.failLua
    apply RedisBroker.endLease_rule (Q := fun x => x.2 = false → x.1 = w.redis)
    case rejected => exact fun _ => rfl
    case accepted => exact fun _ _ _ hr => nomatch hr
  rw [hw]
  exact .of_redis (fun k => congrArg (fun r : Redis => (r.summaries k).map (·.id)) hr) fun q =>
    congrArg (fun r : Redis => r.lists (.dlq q)) hr

namespace Posting

variable {queueName : QueueName}

theorem calm (h : Posting j queueName w) (hw : Calm w w') : Posting j queueName w' where
  paired := h.paired.calm hw
  filed  := hw.lists ▸ hw.buried ▸ h.filed
  row    := hw.isSome ▸ h.row

-- The broker fails a job which is no dead letter yet.
theorem of_fail {leaseToken : Token} {errMessage : String} {failedAt : Time} (h : Kept w)
    (hj : (w.postgres.summaries job.id).isSome) (hn : w.postgres.buried job.id = none)
    (he : w.exec (.broker (.fail job leaseToken errMessage none failedAt)) = (w', .ok true)) :
    Posting job.id job.queue w' := by
  have hs (k) : w'.redis.summaries k = _ := (World.exec_fail he).right k
  have hp : w'.postgres = w.postgres := congrArg (·.1.postgres) he.symm
  have hl (q) : w'.redis.dlq q = if q = job.queue then job.id :: w.redis.dlq job.queue else w.redis.dlq q := by
    have hb : (RedisBroker.failLua job leaseToken errMessage none failedAt.unixMilli w.redis).2 = true :=
      Except.ok.inj <| congrArg Prod.snd he
    have hr : w'.redis = (RedisBroker.failLua job leaseToken errMessage none failedAt.unixMilli w.redis).1 :=
      congrArg (·.1.redis) he.symm
    rw [hr]
    revert hb
    unfold RedisBroker.failLua
    apply RedisBroker.endLease_rule (Q := fun x => x.2 = true → x.1.dlq q = _)
    case rejected => exact fun hb => nomatch hb
    case accepted =>
      intro _ _ _ _
      simp [Redis.dlq, Redis.lpush_lists]
  constructor
  case row    => exact hp ▸ hj
  case filed  => exact hp ▸ h.mirrored.push hn hl fun b => Function.update_apply ..
  case paired =>
    constructor
    case rows  =>
      intro k
      rw [hp, hs, h.paired.rows]
      exact (map_id_ite (p := k = job.id) (g := ({ · with state := .failed })) fun _ => rfl).symm
    case keyed =>
      intro k s hk
      rw [hs] at hk
      split at hk
      case isFalse => exact h.paired.keyed k s hk
      case isTrue  =>
        have ⟨s', hs', hk⟩ := Option.map_eq_some_iff.mp hk
        exact hk ▸ h.paired.keyed k s' hs'

-- The database takes over the dead letter.
theorem upsert (h : Posting j queueName w) {deadLetter : DeadLetter} (hj : deadLetter.jobID = j)
    (hq : deadLetter.queue = queueName) : Kept (w.exec (.repo (.upsertDeadLetter deadLetter))).1 := by
  have hb := Postgres.upsertDeadLetter_buried <| show (w.postgres.summaries deadLetter.jobID).isSome from hj ▸ h.row
  rw [hj, hq] at hb
  constructor
  case mirrored =>
    have hf := h.filed
    rwa [← hb] at hf
  case paired   =>
    refine ⟨h.paired.keyed, fun k => ?_⟩
    exact (congrArg (Option.map _) <| congrFun Postgres.upsertDeadLetter_summaries k).trans (h.paired.rows k)

end Posting

namespace Runtime

open Worker

variable {r : Runtime} {leaseToken : Token} {started finished : Time}

-- A job which fails for the last time becomes a dead letter, which it must not be yet.
theorem handleFailure_kept {err : HandlerError} (h : Kept w) (hj : (w.postgres.summaries job.id).isSome)
    (hn : job.maxAttempts ≤ job.attempts → w.postgres.buried job.id = none) :
    (r.handleFailure job leaseToken err started finished).Ensures unguarded Calm (fun _ w' => Kept w') w := by
  unfold handleFailure
  by_cases ha : job.attempts < job.maxAttempts
  case pos =>
    have hr : r.failureRetryAt job finished = some _ := if_pos ha
    rw [hr]
    refine Prog.Quiet.ensures (calm_call rfl fun ok => ?_) fun _ w' hw => h.calm hw
    match ok with
    | .error _  => trivial
    | .ok false => trivial
    | .ok true  => exact calm_call rfl fun _ => calm_call rfl fun _ => trivial
  case neg =>
    have hr : r.failureRetryAt job finished = none := if_neg ha
    rw [hr]
    refine Prog.ensures_of_exec fun w₁ hw₁ w₂ ok he => ?_
    have h := h.calm hw₁
    match ok with
    | .error _  => cases he
    | .ok false => exact fun w₃ hw₃ => (h.calm (World.exec_fail_rejected he)).calm hw₃
    | .ok true  =>
      have hj : (w₁.postgres.summaries (failedJob job err started finished).id).isSome := hw₁.isSome ▸ hj
      have hp : Posting job.id job.queue w₂ := .of_fail h hj (hw₁.buried ▸ hn (not_lt.mp ha)) he
      refine fun w₃ hw₃ => ?_
      have hp := (hp.calm hw₃).calm <|
        World.exec_calm (c := .repo (.markJobFailed (failedJob job err started finished))) rfl
      refine quiet_updateIdempotencyOutcome.ensures_bind fun _ w₄ hw₄ => ?_
      refine fun w₅ hw₅ w₆ hw₆ => ?_
      have hp := (hp.calm hw₄).calm hw₅ |>.calm (World.exec_calm rfl) |>.calm hw₆
      have hk : Kept (w₆.exec (.repo (.upsertDeadLetter <|
        r.deadLetter (failedJob job err started finished) err finished))).1 := hp.upsert rfl rfl
      exact (resolveDependents_calm hk.paired).mono fun _ w' hw => hk.calm hw

theorem finish_kept {outcome : Except HandlerError String} (h : Kept w) (hj : (w.postgres.summaries job.id).isSome)
    (hn : job.maxAttempts ≤ job.attempts → outcome.isOk = false → w.postgres.buried job.id = none) :
    (r.finish job leaseToken outcome started).Ensures unguarded Calm (fun _ w' => Kept w') w := by
  refine Prog.ensures_of_exec fun w₁ hw₁ w₂ finished he => ?_
  cases he
  have hw₂ : Calm w (w₁.exec .now).1 := IsTrans.trans _ _ _ hw₁ <| World.exec_calm rfl
  have h := h.calm hw₂
  cases outcome
  case error err => exact handleFailure_kept h (hw₂.isSome ▸ hj) fun ha => hw₂.buried ▸ hn ha rfl
  case ok result =>
    let job' := completedJob job result started w₁.now
    have hq : (broker (.complete job' leaseToken result w₁.now)).Quiet unguarded Calm := calm_call rfl fun _ => trivial
    refine hq.ensures_bind fun ok w₃ hw₃ => ?_
    have h := h.calm hw₃
    match ok with
    | .error _  => exact fun w₄ hw₄ => h.calm hw₄
    | .ok false => exact fun w₄ hw₄ => h.calm hw₄
    | .ok true  =>
      refine fun w₄ hw₄ => ?_
      have h := (h.calm hw₄).calm <| World.exec_calm (c := .repo (.markJobCompleted job')) rfl
      refine quiet_updateIdempotencyOutcome.ensures_bind fun _ w₅ hw₅ => ?_
      refine fun w₆ hw₆ => ?_
      have h := ((h.calm hw₅).calm hw₆).calm <| World.exec_calm (c := .repo (.upsertJobAttempt <|
        r.attempt job' leaseToken "completed" none "" started w₁.now)) rfl
      exact (resolveDependents_calm h.paired).mono fun _ w' hw => h.calm hw

-- The handling of the job fails.
def fails (handling : Option Handling) : Bool :=
  handling.all (!·.result.isOk)

theorem execute_kept {policies : List RateLimitPolicy} {handling : Option Handling} (h : Kept w)
    (hj : (w.postgres.summaries job.id).isSome)
    (hn : job.maxAttempts ≤ job.attempts → fails handling → w.postgres.buried job.id = none) :
    (r.execute job leaseToken policies handling started).EnsuresAlone unguarded Calm (fun _ w' => Kept w') w := by
  have ha : Calm w (w.exec (.repo (.markJobActive job))).1 := World.exec_calm rfl
  have hw : Calm w ((w.exec (.repo (.markJobActive job))).1.exec (.repo (.upsertJobAttempt <|
      r.attempt job leaseToken "started" none "" started none))).1 :=
    IsTrans.trans _ _ _ ha <| World.exec_calm rfl
  have h := h.calm hw
  have hj := hw.isSome ▸ hj
  cases handling
  case none          => exact (handleFailure_kept h hj fun ha => hw.buried ▸ hn ha rfl).alone
  case some handling =>
    have hb (w : World) : Calm w (w.exec (.heartbeats r job leaseToken policies handling.rounds)).1 := .of_calls
    refine finish_kept (h.calm (hb _)) ((hb _).isSome ▸ hj) fun ha hf => ?_
    have hn := hw.buried ▸ hn ha (by simp [fails, hf])
    exact (congrFun (hb _).buried _).trans hn

theorem quiet_throttle {retryAt : Time} {reason : String} :
    (throttle job leaseToken retryAt reason).Quiet unguarded Calm := by
  refine calm_call rfl fun now => calm_call rfl fun now => calm_call rfl fun ok => ?_
  match ok with
  | .error _  => trivial
  | .ok false => trivial
  | .ok true  => exact calm_call rfl fun _ => trivial

theorem quiet_dequeue : (Broker.dequeue r.workerID r.queues r.leaseTTL).Quiet unguarded Calm := by
  refine calm_call rfl fun now => calm_call rfl fun res => ?_
  match res with
  | .error _     => trivial
  | .ok none     => trivial
  | .ok (some _) =>
    refine calm_call rfl fun job => ?_
    cases job <;> trivial

variable {policies : List RateLimitPolicy} {handler : Job → Option Handling}

-- The job which the round of the worker leases for the last time, if handling it fails.
def burying (r : Runtime) (policies : List RateLimitPolicy) (handler : Job → Option Handling) (w : World) : Option JobID :=
  match (Broker.dequeue r.workerID r.queues r.leaseTTL).run World.exec w with
  | (w', .ok (some leased)) =>
    if leased.job.maxAttempts ≤ leased.job.attempts ∧ fails (handler leased.job) ∧
      ((r.admission leased policies).run World.exec w').2
    then some leased.job.id
    else none
  | _ => none

theorem work_kept (h : Kept w) (hn : ∀ j ∈ r.burying policies handler w, w.postgres.buried j = none) :
    (r.work policies handler).EnsuresAlone unguarded Calm (fun _ w' => Kept w') w := by
  have hk : Keyed w := fun j s hs =>
    match hs with
    | .inl hs => h.paired.keyed j s hs
    | .inr hs => h.paired.keyed_row hs
  have ⟨w', res, he, hl⟩ := dequeue_run r.workerID r.queues r.leaseTTL hk
  have hw : Calm w _ := (quiet_dequeue (r := r)).run
  rw [unguarded_exec, he] at hw
  refine dequeue_forkFree.ensuresAlone_bind.mpr ?_
  rw [unguarded_exec, he]
  match res with
  | none        => exact h.calm hw
  | some leased =>
    have ⟨s, hl⟩ := hl
    have hj : (w.postgres.summaries leased.job.id).isSome := by
      rw [h.paired.isSome, hl.before]
      rfl
    refine process_rule (fun _ _ h hw => h.calm hw) (fun ha w₁ started hw₁ => ?_) fun _ w₁ _ _ _ hw₁ => ?_
    · have hw₁ : Calm w w₁ := IsTrans.trans _ _ _ hw hw₁
      refine execute_kept (h.calm hw₁) (hw₁.isSome ▸ hj) fun hm hf => ?_
      refine hw₁.buried ▸ hn _ ?_
      have hb : leased.job.maxAttempts ≤ leased.job.attempts ∧ fails (handler leased.job) ∧
          ((r.admission leased policies).run World.exec w').2 := ⟨hm, hf, ha⟩
      simp only [burying, he, if_pos hb]
      rfl
    · exact quiet_throttle.ensures fun _ w' hw' => ((h.calm hw).calm hw₁).calm hw'

end Runtime

end JobPlatform
