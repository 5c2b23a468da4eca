import JobPlatform.Scheduler.Recovery
import JobPlatform.Worker.DeadLetters

namespace JobPlatform

namespace RedisBroker

variable {b : RedisBroker} {r r' : Redis} {j k : JobID} {h : JobHash} {now : Int} {ids : List JobID}
         {items : List RecoveredLease} {place : JobID → Option QueueName} {queueName : QueueName}

theorem recover_dlq : (b.recover now j h r).1.dlq queueName =
    if recoveredState h = .failed ∧ queueName = h.queue then j :: r.dlq queueName else r.dlq queueName := by
  apply recover_rule (Q := fun x => x.1.dlq queueName = _)
  case canceled => exact fun hc => by simp [recoveredState, hc, Redis.dlq]
  case retrying => exact fun s hc ha _ => by simp [recoveredState, hc, ha, Redis.dlq]
  case aborted  => exact fun hc ha _ => by simp [recoveredState, hc, ha, Redis.dlq]
  case failed   =>
    intro hc ha
    have hs : recoveredState h = .failed := by simp [recoveredState, hc, not_lt.mpr ha]
    simp only [hs, true_and, Redis.dlq, Redis.lpush_lists, ListKey.dlq.injEq, Redis.hset_lists]
    split
    case isTrue hq => rw [hq]
    case isFalse   => rfl

theorem recover_queue (hj : r.jobs j = some h) :
    ((b.recover now j h r).1.jobs k).map (·.queue) = (r.jobs k).map (·.queue) := by
  have hset (f : JobHash → JobHash) (hf : (f h).queue = h.queue) :
      ((r.hset j f).jobs k).map (·.queue) = (r.jobs k).map (·.queue) := by
    rw [Redis.hset_jobs]
    split
    case isTrue hk => simp [hk, hj, hf]
    case isFalse   => rfl
  apply recover_rule (Q := fun x => (x.1.jobs k).map (·.queue) = _)
  case canceled => exact fun _ => hset (·.cancelExpired now) rfl
  case retrying => exact fun _ _ _ _ => hset (·.retryExpired _ now) rfl
  case aborted  => exact fun _ _ _ => hset (·.retryExpired 0 now) rfl
  case failed   => exact fun _ _ => hset (·.failExpired now) rfl

-- Where the jobs are buried after the batch `ids` has been recovered.
def burials (ids : List JobID) (r : Redis) (place : JobID → Option QueueName) (j : JobID) : Option QueueName :=
  if verdict ids r j = some .failed then (r.jobs j).map (·.queue) else place j

theorem recoverAll_filed (hn : ids.Nodup) (hr : (b.recoverAll now ids r).2 = .ok items)
    (hl : ∀ id ∈ ids, ((r.zsets .activeLeases).score? id).isSome)
    (hf : Filed r.dlq place) (hp : ∀ k, verdict ids r k = some .failed → place k = none) :
    Filed (b.recoverAll now ids r).1.dlq (burials ids r place) ∧
    ∀ k, ((b.recoverAll now ids r).1.jobs k).map (·.queue) = (r.jobs k).map (·.queue) := by
  induction ids generalizing r items place
  case nil =>
    have hb : burials [] r place = place := by funext k; simp [burials, verdict]
    exact ⟨hb ▸ hf, fun _ => rfl⟩
  case cons id rest hi =>
    obtain ⟨hm, hn⟩ := List.nodup_cons.mp hn
    obtain ⟨hd, hl⟩ := List.forall_mem_cons.mp hl
    have leased {r' : Redis} (hu : ∀ k ≠ id, r.Unchanged k r') :
        ∀ k ∈ rest, ((r'.zsets .activeLeases).score? k).isSome := by
      intro k hk
      rw [(hu k <| ne_of_mem_of_not_mem hk hm).score]
      exact hl k hk
    -- The rest of the batch is recovered after the job at its head, which has been buried where `place'` says.
    have next {r' : Redis} {place' : JobID → Option QueueName} {items : List RecoveredLease}
        (hu : ∀ k ≠ id, r.Unchanged k r') (hq : ∀ k, (r'.jobs k).map (·.queue) = (r.jobs k).map (·.queue))
        (hf : Filed r'.dlq place') (hpl : ∀ k ≠ id, place' k = place k) (hid : place' id = burials (id :: rest) r place id)
        (hr : (b.recoverAll now rest r').2 = .ok items) :
        Filed (b.recoverAll now rest r').1.dlq (burials (id :: rest) r place) ∧
        ∀ k, ((b.recoverAll now rest r').1.jobs k).map (·.queue) = (r.jobs k).map (·.queue) := by
      have hv (k) (hk : k ≠ id) : verdict (id :: rest) r k = verdict rest r' k := verdict_cons_ne hk (hu k hk).jobs
      have hb : burials rest r' place' = burials (id :: rest) r place := by
        funext k
        by_cases hk : k = id
        case pos => rw [hk, ← hid, burials, verdict_not_mem hm, if_neg fun he => by cases he]
        case neg => rw [burials, burials, hv k hk, hpl k hk, hq]
      obtain ⟨hx, hy⟩ := hi hn hr (leased hu) hf fun k hk => by
        have hki : k ≠ id := by
          intro he
          rw [he, verdict_not_mem hm] at hk
          cases hk
        rw [hpl k hki]
        exact hp k (hv k hki ▸ hk)
      exact ⟨hb ▸ hx, fun k => (hy k).trans (hq k)⟩
    unfold recoverAll at hr ⊢
    simp only [hd, if_true] at hr ⊢
    cases hj : r.jobs id
    case none   =>
      simp only [hj] at hr ⊢
      exact next (fun k hk => .zrem hk) (fun _ => rfl) hf (fun _ _ => rfl) (by simp [burials, verdict, hj]) hr
    case some h =>
      have hu (k : JobID) (hk : k ≠ id) : r.Unchanged k (b.recover now id h (r.zrem .activeLeases id)).1 :=
        .trans (.zrem hk) (recover_unchanged hk)
      have hq (k) := @recover_queue b (r.zrem .activeLeases id) id k h now hj
      have hd (q) := @recover_dlq b (r.zrem .activeLeases id) id h now q
      simp only [hj] at hr ⊢
      generalize b.recover now id h (r.zrem .activeLeases id) = x at hr hu hq hd ⊢
      obtain ⟨r₁, res⟩ := x
      cases res
      case error e => cases hr
      case ok item =>
        dsimp only at hr hu hq hd ⊢
        cases hy : (b.recoverAll now rest r₁).2
        case error e  => rw [hy] at hr; cases hr
        case ok items =>
          have hv : verdict (id :: rest) r id = some (recoveredState h) := by simp [verdict, hj]
          by_cases hs : recoveredState h = .failed
          case pos =>
            have hfd : Filed r₁.dlq (Function.update place id (some h.queue)) := by
              refine hf.push (hp id (hv.trans <| congrArg some hs)) (fun q => ?_) fun b => Function.update_apply ..
              rw [hd, hs]
              by_cases hq : q = h.queue
              case pos => simp [hq]; rfl
              case neg => simp [hq]; rfl
            refine next hu hq hfd (fun k hk => Function.update_of_ne hk ..) ?_ hy
            rw [Function.update_self, burials, hv, hs, if_pos rfl, hj, Option.map_some]
          case neg =>
            have hfd : Filed r₁.dlq place := by
              have he : r₁.dlq = r.dlq := by funext q; rw [hd, if_neg fun h => hs h.left]; rfl
              exact he ▸ hf
            refine next hu hq hfd (fun _ _ => rfl) ?_ hy
            rw [burials, hv, if_neg fun he => hs (Option.some.inj he)]

end RedisBroker

namespace Scheduler

variable {w w' w₁ : World} {job : Job} {item : RecoveredLease} {items : List RecoveredLease} {sch : Scheduler}
         {h : JobHash}

theorem quiet_markRetried {retryAt : Option Time} : (markRetried job retryAt).Quiet unguarded Calm := by
  have ended (b : Bool) : Prog.Quiet unguarded Calm (do
      let started  ← valueOrNow job.startedAt
      let finished ← timeNow
      let _ ← repo (.upsertJobAttempt <| expiredAttempt job started finished)
      return if b then .ok () else .error .nilDereference : Program (Except Error Unit)) := by
    cases job.startedAt
    case none   => exact calm_call rfl fun _ => calm_call rfl fun _ => calm_call rfl fun _ => trivial
    case some _ => exact calm_call rfl fun _ => calm_call rfl fun _ => trivial
  cases retryAt
  case none   => exact ended false
  case some _ => exact calm_call rfl fun _ => ended true

theorem quiet_markCanceled : (markCanceled job).Quiet unguarded Calm :=
  calm_call rfl fun _ => calm_call rfl fun _ => trivial

theorem quiet_markActivated {ids : List JobID} : (markActivated ids).Quiet unguarded Calm := by
  induction ids
  case nil            => trivial
  case cons id rest hi =>
    refine calm_call rfl fun res => ?_
    cases res
    case error => exact hi
    case ok    => exact calm_call rfl fun _ => hi

theorem quiet_activateDue : sch.activateDue.Quiet unguarded Calm := by
  refine calm_call rfl fun now => calm_call rfl fun res => ?_
  cases res
  case error  => trivial
  case ok ids => exact quiet_markActivated.bind fun _ => trivial

-- The database buries the job of the item if it has failed.
structure Buried (item : RecoveredLease) (w w' : World) : Prop where
  redis  : w'.redis = w.redis
  rows   : ∀ k, (w'.postgres.summaries k).map (·.id) = (w.postgres.summaries k).map (·.id)
  buried : ∀ k, w'.postgres.buried k = if item.state = .failed ∧ k = item.jobID
    then (w.redis.jobs k).map (·.queue)
    else w.postgres.buried k

theorem Buried.of_calm (hs : item.state ≠ .failed) (hr : w'.redis = w.redis) (hw : Calm w w') : Buried item w w' where
  redis    := hr
  rows     := hw.rows
  buried k := by rw [hw.buried, if_neg fun h => hs h.left]

theorem markFailed_buried (hj : w.redis.jobs item.jobID = some h) (hi : h.id = item.jobID) (hs : item.state = .failed)
    (hr : (w.postgres.summaries item.jobID).isSome) :
    Buried item w ((markFailed (jobFromHash h)).run World.exec w).1 := by
  let job := { jobFromHash h with finishedAt := some w.now }
  let w₁ := ((w.exec .now).1.exec (.repo (.markJobFailed job))).1
  let w₂ := (w₁.exec (.repo (.upsertDeadLetter <| expiredDeadLetter job w.now))).1
  have hc : Calm w w₁ := IsTrans.trans _ _ _ (World.exec_calm (c := .now) rfl) (World.exec_calm rfl)
  have hq : (updateIdempotencyOutcome job "failed").Quiet unguarded Calm := quiet_updateIdempotencyOutcome
  have ho : Calm w₂ ((updateIdempotencyOutcome job "failed").run World.exec w₂).1 := hq.run
  have hid : (expiredDeadLetter job w.now).jobID = item.jobID := hi
  have hu : w₂.postgres.buried = Function.update w.postgres.buried item.jobID (some h.queue) := by
    rw [← hc.buried, ← hid]
    exact Postgres.upsertDeadLetter_buried (hid ▸ hc.isSome ▸ hr)
  have hs₂ (k) : (w₂.postgres.summaries k).map (·.id) = (w₁.postgres.summaries k).map (·.id) :=
    congrArg (Option.map _) <| congrFun Postgres.upsertDeadLetter_summaries k
  constructor
  case redis  =>
    have hm : Notes (jobFromHash h).id h.state w ((markFailed (jobFromHash h)).run World.exec w).1 := markFailed_notes rfl
    exact hm.redis
  case rows   => exact fun k => (ho.rows k).trans <| (hs₂ k).trans (hc.rows k)
  case buried =>
    intro k
    refine (congrFun ho.buried k).trans ?_
    rw [hu, Function.update_apply]
    by_cases hk : k = item.jobID
    case pos => simp [hk, hs, hj]
    case neg => simp [hk]

-- What the database says about dead letters after the items have been marked.
structure BuriedAll (items : List RecoveredLease) (w w' : World) : Prop where
  redis  : w'.redis = w.redis
  rows   : ∀ k, (w'.postgres.summaries k).map (·.id) = (w.postgres.summaries k).map (·.id)
  failed : ∀ item ∈ items, item.state = .failed → w'.postgres.buried item.jobID = (w.redis.jobs item.jobID).map (·.queue)
  others : ∀ k, (∀ item ∈ items, item.state = .failed → item.jobID ≠ k) → w'.postgres.buried k = w.postgres.buried k

theorem BuriedAll.cons (h : Buried item w w₁) (h' : BuriedAll items w₁ w') : BuriedAll (item :: items) w w' where
  redis       := h'.redis.trans h.redis
  rows k      := (h'.rows k).trans (h.rows k)
  others k hk := by
    have ⟨hk, hks⟩ := List.forall_mem_cons.mp hk
    rw [h'.others k hks, h.buried, if_neg fun hi => hk hi.left hi.right.symm]
  failed i hm hs := by
    by_cases hi : ∃ item' ∈ items, item'.state = .failed ∧ item'.jobID = i.jobID
    case pos =>
      have ⟨item', hm', hs', hj⟩ := hi
      rw [← hj, h'.failed item' hm' hs', h.redis]
    case neg =>
      simp only [not_exists, not_and] at hi
      have he : i = item := (List.mem_cons.mp hm).resolve_right fun hm => hi i hm hs rfl
      rw [h'.others _ hi, h.buried, if_pos ⟨he ▸ hs, congrArg _ he⟩]

theorem markRecovered_buried {v : JobID → Option JobState} (hp : Paired w) (hi : ∀ item ∈ items, ∃ h, Readable v w item h)
    (hr : ((markRecovered items).run World.exec w).2 = .ok ()) :
    BuriedAll items w ((markRecovered items).run World.exec w).1 := by
  induction items generalizing w
  case nil                  => exact ⟨rfl, fun _ => rfl, by simp, fun _ _ => rfl⟩
  case cons item items hind =>
    have ⟨⟨h, hh⟩, hi⟩ := List.forall_mem_cons.mp hi
    have next {w₁ : World} (hb : Buried item w w₁) (hr : ((markRecovered items).run World.exec w₁).2 = .ok ()) :
        BuriedAll (item :: items) w ((markRecovered items).run World.exec w₁).1 := by
      have hp : Paired w₁ := ⟨hb.redis ▸ hp.keyed, fun k => by rw [hb.rows, hb.redis, hp.rows]⟩
      refine .cons hb <| hind hp (fun i hm => ?_) hr
      have ⟨h, hx⟩ := hi i hm
      exact ⟨h, hb.redis ▸ hx.stored, hx.keyed, hx.state, hx.verdict, hx.ended⟩
    let w₀ := { w with calls := w.calls + 1 }
    have of_calls {w₁ : World} (hb : Buried item w₀ w₁) : Buried item w w₁ := ⟨hb.redis, hb.rows, hb.buried⟩
    rw [markRecovered_cons_run hh.stored] at hr ⊢
    match hs : item.state, hh.ended with
    | .canceled, _ =>
      simp only [hs, Prog.run_bind] at hr ⊢
      refine next (of_calls <| .of_calm (by simp [hs]) (markCanceled_notes rfl).redis ?_) hr
      exact quiet_markCanceled.run
    | .failed, _   =>
      simp only [hs, Prog.run_bind] at hr ⊢
      refine next (of_calls <| markFailed_buried hh.stored hh.keyed hs ?_) hr
      rw [hp.isSome, Redis.summaries, hh.stored]
      rfl
    | .retrying, _ =>
      simp only [hs, Prog.run_bind] at hr ⊢
      cases hx : ((markRetried (jobFromHash h) item.retryAt).run World.exec { w with calls := w.calls + 1 }).2
      case error e => simp [hx] at hr
      case ok      =>
        simp only [hx] at hr ⊢
        refine next (of_calls <| .of_calm (by simp [hs]) (markRetried_notes rfl hx).redis ?_) hr
        exact quiet_markRetried.run

theorem recoverExpired_kept (hk : Kept w) (hn : ∀ j, sch.verdict w j = some .failed → w.postgres.buried j = none)
    (hr : (sch.recoverExpired.run World.exec w).2 = .ok ()) : Kept (sch.recoverExpired.run World.exec w).1 := by
  have hkey (j) (h : JobHash) (hj : w.redis.jobs j = some h) : h.id = j :=
    hk.paired.keyed j h.summary <| by simp [Redis.summaries, hj]
  have hx {items} := @RedisBroker.recoverExpiredLua_recoversAll w.broker w.redis w.now.unixMilli items
    sch.recoveryBatchSize
  have hf {items} (hr : (w.broker.recoverExpiredLua sch.recoveryBatchSize w.now.unixMilli w.redis).2 = .ok items) :=
    RedisBroker.recoverAll_filed SortedSet.rangeByScore_nodup hr RedisBroker.mem_expired_leased hk.mirrored hn
  rw [recoverExpired_eq] at hr ⊢
  simp only [Prog.run_call, World.exec_now, World.exec_broker, RedisBroker.exec] at hr ⊢
  unfold RedisBroker.recoverExpiredLua at hr hx hf ⊢
  generalize w.broker.recoverAll w.now.unixMilli _ w.redis = x at hr hx hf ⊢
  obtain ⟨r', res⟩ := x
  cases res
  case error e  => cases hr
  case ok items =>
    obtain ⟨hj, hi⟩ := hx rfl
    obtain ⟨hf, hq⟩ := hf rfl
    have hs (k) : (r'.summaries k).map (·.id) = (w.redis.summaries k).map (·.id) := by
      simpa [Redis.summaries, Function.comp_def, JobHash.summary] using (hj k).id
    let w₁ := { w with calls := w.calls + 1 + 1, redis := r' }
    have hp : Paired w₁ := by
      refine ⟨fun j s hs' => ?_, fun k => (hk.paired.rows k).trans (hs k).symm⟩
      have hs := hs j
      rw [hs'] at hs
      obtain ⟨s', hs', he⟩ := Option.map_eq_some_iff.mp hs.symm
      exact he.symm.trans <| hk.paired.keyed j s' hs'
    have hb : BuriedAll items w₁ ((markRecovered items).run World.exec w₁).1 :=
      markRecovered_buried hp (fun item hm => readable_of_recovers (w := w₁) hkey rfl ⟨hj, hi⟩ hm) hr
    constructor
    case paired   => exact ⟨hb.redis ▸ hp.keyed, fun k => by rw [hb.rows, hb.redis, hp.rows]⟩
    case mirrored =>
      have he : ((markRecovered items).run World.exec w₁).1.postgres.buried =
          RedisBroker.burials (RedisBroker.expired sch.recoveryBatchSize w.now.unixMilli w.redis) w.redis
            w.postgres.buried := by
        funext k
        by_cases hv : sch.verdict w k = some .failed
        case pos =>
          obtain ⟨item, hm, he, hs⟩ := (hi k .failed).mpr hv
          refine Eq.trans ?_ (if_pos hv).symm
          rw [← he, hb.failed item hm hs, ← hq]
        case neg =>
          refine Eq.trans (hb.others k fun item hm hs he => ?_) (if_neg hv).symm
          exact hv <| (hi k .failed).mp ⟨item, hm, he, hs⟩
      have hl := congrArg Redis.dlq hb.redis
      rw [Mirrored, he, hl]
      exact hf

theorem markFailed_forkFree : (markFailed job).ForkFree unguarded := by
  refine ⟨rfl, fun finished => ⟨rfl, fun _ => ⟨rfl, fun _ => ?_⟩⟩⟩
  have hq (job : Job) : (updateIdempotencyOutcome job "failed").Quiet unguarded Calm := quiet_updateIdempotencyOutcome
  exact (hq _).forkFree

theorem markRecovered_forkFree : (markRecovered items).ForkFree unguarded := by
  induction items
  case nil                => trivial
  case cons item items hi =>
    refine ⟨rfl, fun res => ?_⟩
    cases res
    case error  => exact hi
    case ok job =>
      simp only [Prog.ret_bind]
      cases item.state
      case retrying =>
        refine quiet_markRetried.forkFree.bind fun res => ?_
        cases res
        case error => trivial
        case ok    => exact hi
      case failed   => exact markFailed_forkFree.bind fun _ => hi
      case canceled => exact quiet_markCanceled.forkFree.bind fun _ => hi
      all_goals exact hi

theorem recoverExpired_forkFree : sch.recoverExpired.ForkFree unguarded := by
  refine ⟨rfl, fun now => ⟨rfl, fun res => ?_⟩⟩
  cases res
  case error    => trivial
  case ok items => exact markRecovered_forkFree

end Scheduler

end JobPlatform
