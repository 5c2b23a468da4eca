import JobPlatform.Service.Agreement
import JobPlatform.Worker.DeadLetters

namespace JobPlatform

variable {w w' : World} {j k jobID : JobID} {job : Job} {now : Time} {queueName : QueueName}

namespace RedisBroker

variable {r : Redis}

theorem retry_dlq : (retry job now r).dlq queueName =
    if queueName = job.queue then (r.dlq job.queue).filter (· ≠ job.id) else r.dlq queueName := by
  unfold retry
  dsimp only
  split <;> simp [Redis.dlq, Redis.lrem_lists, Redis.lpush_lists]

-- Nothing is taken out of a list which does not contain the job.
theorem cancelLoaded_dlq {now : Int} (h : isCancellable job.state → jobID ∉ r.dlq job.queue) :
    (cancelLoaded jobID job now r).dlq = r.dlq := by
  unfold cancelLoaded
  dsimp only
  split
  case isFalse   => rfl
  case isTrue hc =>
    funext q
    by_cases hq : q = job.queue
    case neg => simp [Redis.dlq, Redis.lrem_lists, hq]
    case pos =>
      have hj (k) (hk : k ∈ r.lists (.dlq job.queue)) : k ≠ jobID := ne_of_mem_of_not_mem hk (h hc)
      simpa [Redis.dlq, Redis.lrem_lists, hq] using hj

end RedisBroker

namespace Postgres

variable {p p' : Postgres} {dependencies : List JobID}

theorem storeTx_deadLetters (h : storeTx job dependencies p = .ok p') : p'.deadLetters = p.deadLetters :=
  (congrArg Postgres.deadLetters (storeTx_frame h) :)

end Postgres

namespace Manager

variable {m : Manager} {req : JobRequest}

theorem creation_deadLetters {p : Postgres} : (m.creation req job p).1.deadLetters = p.deadLetters := by
  have hs (p') (h : p.storeTx job (sanitizeDependencies req.dependencies job.id) = .ok p') :
      p'.deadLetters = p.deadLetters :=
    Postgres.storeTx_deadLetters h
  unfold creation
  dsimp only
  split
  case isFalse => exact Postgres.createJobBundle_rule (Q := (·.deadLetters = p.deadLetters)) rfl hs
  case isTrue  => exact Postgres.createJobWithIdempotency_rule (Q := (·.deadLetters = p.deadLetters)) rfl hs

-- The row of a new job has been inserted, and the broker gets to know the job.
theorem enqueue_kept {p : Postgres} (h : Kept w)
    (hp : p.jobs = Function.update w.postgres.jobs job.id (some (Postgres.newRow job)))
    (hd : p.deadLetters = w.postgres.deadLetters) (hw : Calm { w with postgres := p } w') :
    Kept (w'.exec (.broker (.enqueue job now))).1 := by
  have hr (k) : (RedisBroker.enqueue job now w'.redis).summaries k = _ := RedisBroker.enqueue_summaries
  have hx (k) : (w'.postgres.summaries k).map (·.id) =
      if k = job.id then some job.id else (w.postgres.summaries k).map (·.id) := by
    rw [hw.rows]
    simp only [Postgres.summaries, hp, Function.update_apply]
    split <;> rfl
  constructor
  case mirrored =>
    have hl : (RedisBroker.enqueue job now w'.redis).dlq = w.redis.dlq :=
      (funext fun q => RedisBroker.enqueue_dlq).trans hw.lists
    have hb : w'.postgres.buried = w.postgres.buried :=
      hw.buried.trans <| funext fun j => congrArg (Option.map _) (congrFun hd j)
    have hm := h.mirrored
    rw [Mirrored, ← hl, ← hb] at hm
    exact hm
  case paired   =>
    constructor
    case rows  =>
      intro k
      refine (hx k).trans ?_
      refine .trans ?_ (congrArg (Option.map _) (hr k)).symm
      split
      case isTrue  => rfl
      case isFalse => rw [hw.hashes, h.paired.rows]
    case keyed =>
      intro k s hs
      have hs := (hr k).symm.trans hs
      split at hs
      case isTrue hk =>
        cases hs
        exact hk.symm
      case isFalse   =>
        have hk := hw.hashes k
        rw [hs] at hk
        obtain ⟨s', hs', he⟩ := Option.map_eq_some_iff.mp hk.symm
        exact he.symm.trans <| h.paired.keyed k s' hs'

theorem enqueueJob_kept (h : Kept w) :
    (m.enqueueJob req jobID).Ensures unguarded Calm (fun _ w' => Kept w') w := by
  unfold enqueueJob
  cases m.accepts req
  case error e => exact fun w' hw => h.calm hw
  case ok      =>
    refine Prog.ensures_of_exec fun w₁ hw₁ w₂ now he => ?_
    cases he
    have h : Kept (w₁.exec .now).1 := (h.calm hw₁).calm .of_calls
    refine createJob_ensures fun w₃ hw₃ => ?_
    have h := h.calm hw₃
    have hd : (m.creation req (buildJob w₁.now req jobID) w₃.postgres).1.deadLetters = w₃.postgres.deadLetters :=
      creation_deadLetters
    refine creation_rule (m := m) (Q := fun x => m.creation req (buildJob w₁.now req jobID) w₃.postgres = x →
      Prog.Ensures _ _ _ _ _) (fun e _ he => ?_) (fun record existing _ _ _ _ he => ?_) (fun p' _ _ hj he => ?_) rfl
    · rw [he]
      exact fun w₄ hw₄ => h.calm <| IsTrans.trans _ _ _ .of_calls hw₄
    · rw [he]
      exact fun w₄ hw₄ => h.calm <| IsTrans.trans _ _ _ .of_calls hw₄
    · rw [he] at hd
      rw [he]
      refine fun w₄ hw₄ w₅ hw₅ w₆ hw₆ => Kept.calm ?_ hw₆
      have hw₄ : Calm { w₃ with postgres := p' } w₄ := IsTrans.trans _ _ _ .of_calls hw₄
      exact enqueue_kept h hj hd <| IsTrans.trans _ _ _ hw₄ <| IsTrans.trans _ _ _ .of_calls hw₅

-- The stores after a job has been put back into its queue, which ends it as a dead letter.
def requeued (job : Job) (now : Time) (w : World) : World :=
  let w₁ := (w.exec (.broker (.retry job now))).1
  let w₂ := (w₁.exec (.repo (.markJobQueued job))).1
  (w₂.exec (.repo (.deleteDeadLetters [job.id]))).1

theorem requeued_buried : (requeued job now w).postgres.buried k =
    if k = job.id then none else w.postgres.buried k := by
  simp only [Postgres.buried, requeued, World.exec_repo, Postgres.exec, Postgres.deleteDeadLetters, List.mem_singleton]
  split <;> rfl

theorem requeued_jobs (hk : k ≠ job.id) : (requeued job now w).postgres.jobs k = w.postgres.jobs k :=
  Function.update_of_ne hk ..

theorem requeued_rows : ((requeued job now w).postgres.summaries k).map (·.id) = (w.postgres.summaries k).map (·.id) :=
  (congrArg (Option.map _) Postgres.markJobQueued_summaries).trans <| map_id_ite fun _ => rfl

theorem requeued_hashes (hj : (w.redis.summaries job.id).isSome) :
    ((requeued job now w).redis.summaries k).map (·.id) = (w.redis.summaries k).map (·.id) := by
  by_cases hk : k = job.id
  case neg => exact congrArg (Option.map _) (RedisBroker.retry_unchanged hk).summaries
  case pos =>
    have ⟨s, hs⟩ := Option.isSome_iff_exists.mp hj
    have ⟨h, hj, _⟩ := Option.map_eq_some_iff.mp hs
    have hr : (requeued job now w).redis.jobs job.id = _ := RedisBroker.retry_jobs
    subst hk
    simp only [Redis.summaries, hr, hj, Option.getD_some, Option.map_some]
    split <;> rfl

-- The job must not be a dead letter of another queue than the one into which it is put.
theorem requeued_kept (h : Kept w) (hj : (w.postgres.summaries job.id).isSome)
    (hq : ∀ q, w.postgres.buried job.id = some q → q = job.queue) : Kept (requeued job now w) := by
  have hh (k) : ((requeued job now w).redis.summaries k).map (·.id) = (w.redis.summaries k).map (·.id) :=
    requeued_hashes (h.paired.isSome ▸ hj)
  constructor
  case mirrored => exact h.mirrored.remove hq (fun q => RedisBroker.retry_dlq) fun b => requeued_buried
  case paired   =>
    constructor
    case rows  => exact fun k => by rw [requeued_rows, hh, h.paired.rows]
    case keyed =>
      intro k s hs
      have hk := hh k
      rw [hs] at hk
      have ⟨s', hs', he⟩ := Option.map_eq_some_iff.mp hk.symm
      exact he.symm.trans <| h.paired.keyed k s' hs'

theorem getJob_exec (hj : w.postgres.jobs jobID = some job) :
    w.exec (.repo (.getJob jobID)) = ({ w with calls := w.calls + 1 }, .ok job) := by
  simp [Postgres.exec, Postgres.getJob, hj]

theorem getJob_exec_none (hj : w.postgres.jobs jobID = none) :
    w.exec (.repo (.getJob jobID)) = ({ w with calls := w.calls + 1 }, .error .noRows) := by
  simp [Postgres.exec, Postgres.getJob, hj]

theorem retryJob_run (hj : w.postgres.jobs jobID = some job) (hi : job.id = jobID) :
    ((retryJob jobID).run World.exec w).1 =
      requeued (retriedJob job { w with calls := w.calls + 1 }.now) { w with calls := w.calls + 1 }.now
        { w with calls := w.calls + 2 } := by
  unfold retryJob
  refine (congrArg Prod.fst <| Prog.run_call (Call.repo (.getJob jobID)) _).trans ?_
  rw [getJob_exec hj]
  subst hi
  rfl

theorem retryJob_kept (h : Kept w)
    (hq : ∀ job q, w.postgres.jobs jobID = some job → w.postgres.buried jobID = some q → q = job.queue) :
    Kept ((retryJob jobID).run World.exec w).1 := by
  cases hj : w.postgres.jobs jobID
  case none     =>
    unfold retryJob
    refine (congrArg (Kept ∘ Prod.fst) <| Prog.run_call (Call.repo (.getJob jobID)) _).mpr ?_
    rw [getJob_exec_none hj]
    exact h.calm .of_calls
  case some job =>
    have hi := h.paired.row_id hj
    rw [retryJob_run hj hi]
    subst hi
    exact requeued_kept (h.calm .of_calls) (by simp [retriedJob, Postgres.summaries, hj]) fun q => hq job q hj

-- The queue into which a job is replayed.
def replayQueue (req : DeadLetterReplayRequest) (job : Job) : QueueName :=
  if req.queue ≠ "" then req.queue else job.queue

theorem replayAll_cons_run {req : DeadLetterReplayRequest} {rest : List JobID} {acc : List Job}
    (hj : w.postgres.jobs jobID = some job) :
    (replayAll req now (jobID :: rest) acc).run World.exec w =
      (replayAll req now rest (acc ++ [replayedJob req job now])).run World.exec
        (requeued (replayedJob req job now) now { w with calls := w.calls + 1 }) := by
  rw [replayAll]
  refine (Prog.run_call (Call.repo (.getJob jobID)) _).trans ?_
  rw [getJob_exec hj]
  rfl

theorem replayAll_kept {req : DeadLetterReplayRequest} {ids : List JobID} {acc : List Job} (h : Kept w)
    (hq : ∀ j ∈ ids.takeWhile fun jobID => (w.postgres.summaries jobID).isSome, ∀ job q,
      w.postgres.jobs j = some job → w.postgres.buried j = some q → q = replayQueue req job) :
    Kept ((replayAll req now ids acc).run World.exec w).1 := by
  induction ids generalizing w acc
  case nil               => exact h
  case cons j rest hi =>
    cases hj : w.postgres.jobs j
    case none     =>
      rw [replayAll]
      refine (congrArg (Kept ∘ Prod.fst) <| Prog.run_call (Call.repo (.getJob j)) _).mpr ?_
      rw [getJob_exec_none hj]
      exact h.calm .of_calls
    case some job =>
      have hid : job.id = j := h.paired.row_id hj
      have hs : (w.postgres.summaries j).isSome := by simp [Postgres.summaries, hj]
      rw [replayAll_cons_run hj]
      subst hid
      rw [List.takeWhile_cons_of_pos (p := fun jobID => (w.postgres.summaries jobID).isSome) hs] at hq
      obtain ⟨hq, hqs⟩ := List.forall_mem_cons.mp hq
      let w₁ := { w with calls := w.calls + 1 }
      have hk : Kept (requeued (replayedJob req job now) now w₁) :=
        requeued_kept (h.calm .of_calls) hs fun q => hq job q hj
      refine hi hk fun j hm row q hr hb => ?_
      have hb := requeued_buried.symm.trans hb
      split at hb
      case isTrue     => cases hb
      case isFalse hn =>
        have hp : (fun j => (((requeued (replayedJob req job now) now w₁).postgres.summaries j)).isSome) =
            fun j => (w.postgres.summaries j).isSome := by
          funext j
          simpa using congrArg Option.isSome (requeued_rows (w := w₁))
        rw [hp] at hm
        rw [requeued_jobs hn] at hr
        exact hqs j hm row q hr hb

theorem replayDeadLetters_kept {req : DeadLetterReplayRequest} (h : Kept w)
    (hq : ∀ j ∈ replayed req w, ∀ job q, w.postgres.jobs j = some job → w.postgres.buried j = some q →
      q = replayQueue req job) : Kept ((replayDeadLetters req).run World.exec w).1 :=
  replayAll_kept (h.calm .of_calls) hq

theorem deleteDeadLetters_kept {jobIDs : List JobID} (h : Kept w) (hn : ∀ j ∈ jobIDs, w.postgres.buried j = none) :
    Kept ((deleteDeadLetters jobIDs).run World.exec w).1 := by
  have hd : (w.postgres.deleteDeadLetters jobIDs).deadLetters = w.postgres.deadLetters := by
    funext j
    dsimp only [Postgres.deleteDeadLetters]
    split
    case isTrue hm => exact (Option.map_eq_none_iff.mp (hn j hm)).symm
    case isFalse   => rfl
  unfold deleteDeadLetters
  split
  case isTrue  => exact h
  case isFalse => exact h.calm <| .of_postgres (fun _ => rfl) hd

-- The broker cancels a job, which concerns no dead letter of the queue that its hash names.
theorem cancelLoaded_calm {h : JobHash} (hj : w.redis.jobs jobID = some h)
    (hn : RedisBroker.isCancellable h.state → jobID ∉ w.redis.dlq h.queue) :
    Calm w (w.exec (.broker (.cancelLoaded jobID (jobFromHash h) now))).1 := by
  have hs : w.redis.summaries jobID = some h.summary := by simp [Redis.summaries, hj]
  refine .of_redis (fun k => ?_) fun q => congrFun (RedisBroker.cancelLoaded_dlq hn) q
  refine (congrArg (Option.map _) <| RedisBroker.cancelLoaded_summaries hs).trans ?_
  split
  case isTrue hk => rw [hk, hs]; rfl
  case isFalse   => rfl

theorem cancel_calm (hn : ∀ h, w.redis.jobs jobID = some h → RedisBroker.isCancellable h.state →
    jobID ∉ w.redis.dlq h.queue) : Calm w ((Broker.cancel jobID).run World.exec w).1 := by
  unfold Broker.cancel
  refine (congrArg (Calm w ∘ Prod.fst) <| Prog.run_call (Call.broker (.loadJob jobID)) _).mpr ?_
  let w₁ := { w with calls := w.calls + 1 }
  cases hj : w.redis.jobs jobID
  case none   =>
    have hl : w.exec (.broker (.loadJob jobID)) = (w₁, .error .nilReply) := by
      simp [w₁, RedisBroker.exec, RedisBroker.loadJob, hj]
    rw [hl]
    exact .of_calls
  case some h =>
    have hl : w.exec (.broker (.loadJob jobID)) = (w₁, .ok (jobFromHash h)) := by
      simp [w₁, RedisBroker.exec, RedisBroker.loadJob, hj]
    rw [hl]
    let w₂ := (w₁.exec .now).1
    have hc : Calm w₂ (w₂.exec (.broker (.cancelLoaded jobID (jobFromHash h) w₁.now))).1 := cancelLoaded_calm hj (hn h hj)
    exact IsTrans.trans _ _ _ .of_calls hc

theorem cancelJob_kept (h : Kept w)
    (hn : ∀ hash, w.redis.jobs jobID = some hash → RedisBroker.isCancellable hash.state →
      w.postgres.buried jobID ≠ some hash.queue) :
    Kept ((cancelJob jobID).run World.exec w).1 := by
  let w₁ := { w with calls := w.calls + 1 }
  have hc : Calm w ((Broker.cancel jobID).run World.exec w₁).1 :=
    IsTrans.trans _ _ _ .of_calls <| cancel_calm (w := w₁) fun hash hj hs hm =>
      hn hash hj hs (h.mirrored.mem_iff.mp hm)
  unfold cancelJob
  cases hj : w.postgres.jobs jobID
  case none     =>
    refine (congrArg (Kept ∘ Prod.fst) <| Prog.run_call (Call.repo (.getJob jobID)) _).mpr ?_
    rw [getJob_exec_none hj]
    exact h.calm .of_calls
  case some job =>
    refine (congrArg (Kept ∘ Prod.fst) <| Prog.run_call (Call.repo (.getJob jobID)) _).mpr ?_
    rw [getJob_exec hj]
    simp only [Function.comp_apply, Prog.ret_bind, Prog.bind_eq, Prog.run_bind]
    generalize (Broker.cancel jobID).run World.exec w₁ = x at hc ⊢
    have hk := h.calm hc
    match x with
    | (w₂, .error e) => exact hk
    | (w₂, .ok ())   =>
      have hm : Calm (w₂.exec .now).1 _ := World.exec_calm (c := .repo (.markJobCanceled (canceledJob job w₂.now))) rfl
      exact (hk.calm .of_calls).calm hm

theorem retryJob_forkFree : (retryJob jobID).ForkFree unguarded := by
  refine ⟨rfl, fun res => ?_⟩
  cases res
  case error => trivial
  case ok    =>
    refine ⟨rfl, fun now => ⟨rfl, fun res => ?_⟩⟩
    cases res
    case error => trivial
    case ok    =>
      refine ⟨rfl, fun res => ?_⟩
      cases res
      case error => trivial
      case ok    => exact ⟨rfl, fun _ => trivial⟩

theorem replayAll_forkFree {req : DeadLetterReplayRequest} {ids : List JobID} {acc : List Job} :
    (replayAll req now ids acc).ForkFree unguarded := by
  induction ids generalizing acc
  case nil            => trivial
  case cons j rest hi =>
    refine ⟨rfl, fun res => ?_⟩
    cases res
    case error => trivial
    case ok    =>
      refine ⟨rfl, fun res => ?_⟩
      cases res
      case error => trivial
      case ok    =>
        refine ⟨rfl, fun res => ?_⟩
        cases res
        case error => trivial
        case ok    =>
          refine ⟨rfl, fun res => ?_⟩
          cases res
          case error => trivial
          case ok    => exact hi

theorem replayDeadLetters_forkFree {req : DeadLetterReplayRequest} : (replayDeadLetters req).ForkFree unguarded :=
  ⟨rfl, fun _ => replayAll_forkFree⟩

theorem deleteDeadLetters_forkFree {jobIDs : List JobID} : (deleteDeadLetters jobIDs).ForkFree unguarded := by
  unfold deleteDeadLetters
  split
  case isTrue  => trivial
  case isFalse =>
    refine ⟨rfl, fun res => ?_⟩
    cases res <;> trivial

theorem cancel_forkFree : (Broker.cancel jobID).ForkFree unguarded := by
  refine ⟨rfl, fun res => ?_⟩
  cases res
  case error => trivial
  case ok    =>
    refine ⟨rfl, fun now => ⟨rfl, fun res => ?_⟩⟩
    cases res <;> trivial

theorem cancelJob_forkFree : (cancelJob jobID).ForkFree unguarded := by
  refine ⟨rfl, fun res => ?_⟩
  cases res
  case error => trivial
  case ok    =>
    refine cancel_forkFree.bind fun res => ?_
    cases res
    case error => trivial
    case ok    =>
      refine ⟨rfl, fun now => ⟨rfl, fun res => ?_⟩⟩
      cases res <;> trivial

end Manager

end JobPlatform
