import JobPlatform.Queue.Effects
import JobPlatform.Store.States
import JobPlatform.Worker.Dependencies

namespace JobPlatform

namespace JobState

def isFinal (s : JobState) : Bool :=
  s = completed ∨ s = failed ∨ s = canceled

def isFailure (s : JobState) : Bool :=
  s = failed ∨ s = canceled

theorem isFinal_of_isFailure {s : JobState} (h : s.isFailure) : s.isFinal := by
  cases s <;> first | rfl | cases h

end JobState

-- How the job `j` has finished, if it has.
def Redis.outcome (r : Redis) (j : JobID) : Option JobState :=
  ((r.jobs j).map (·.state)).filter (·.isFinal)

-- The job waits for a worker or for its time to come.
def Redis.Waits (r : Redis) (j : JobID) : Prop :=
  (∃ queueName priority, j ∈ r.lists (.ready queueName priority)) ∨ ((r.zsets .delayed).score? j).isSome

-- The reason for which a job is blocked contains the identifier of another one.
def Job.Names (job : Job) (j : JobID) : Prop :=
  j.toList <:+: job.blockedReason.toList

namespace Postgres

def outcome (p : Postgres) (j : JobID) : Option JobState :=
  ((p.jobs j).map (·.state)).filter (·.isFinal)

-- What is said about a job to those who depend on it, and about those on which it depends.
def standing (p : Postgres) (j : JobID) : Option (JobState × String) :=
  (p.jobs j).map fun job => (job.state, job.blockedReason)

variable {p : Postgres} {j k : JobID} {job : Job} {f : Job → Job} {e : JobDependency} {s : JobState}

theorem markJobQueued_row (job : Job) (hj : (p.jobs job.id).isSome) : ∃ row,
    (p.markJobQueued job).jobs job.id = some row ∧ row.state = job.state ∧ row.blockedReason = job.blockedReason := by
  have ⟨row, hj⟩ := Option.isSome_iff_exists.mp hj
  rw [markJobQueued, updateJob_jobs, if_pos rfl, hj]
  exact ⟨_, rfl, rfl, rfl⟩

theorem markJobQueued_of_ne {job : Job} (h : k ≠ job.id) : (p.markJobQueued job).jobs k = p.jobs k := by
  rw [markJobQueued, updateJob_jobs, if_neg h]

theorem outcome_eq (hj : p.jobs j = some job) : p.outcome j = if job.state.isFinal then some job.state else none := by
  simp [outcome, hj, Option.filter]

end Postgres

namespace RedisBroker

variable {r : Redis} {j : JobID} {job : Job} {now : Time} {t : JobState}

theorem enqueue_waits (hs : job.state = .queued ∨ job.state = .scheduled) : (enqueue job now r).Waits job.id := by
  unfold enqueue
  dsimp only
  split
  case isTrue hb => simp [hb] at hs
  case isFalse   =>
    split
    case isTrue   => exact .inr (by simp [Redis.zadd_score?])
    case isFalse hd =>
      have hq : job.state = .queued := hs.resolve_right fun hs => hd (.inl hs)
      rw [if_pos hq]
      exact .inl ⟨job.queue, job.priority, by simp [Redis.lpush_lists]⟩

-- No job leaves the place where it waits when another one is enqueued.
theorem enqueue_waits_of_waits (hw : r.Waits j) : (enqueue job now r).Waits j := by
  unfold enqueue
  dsimp only
  split
  · exact hw
  · split
    · refine hw.imp id fun hs => ?_
      rw [Redis.zadd_score?]
      split
      · rfl
      · exact hs
    · split
      · refine hw.imp_left fun h => ?_
        obtain ⟨q, p, hm⟩ := h
        refine ⟨q, p, ?_⟩
        rw [Redis.lpush_lists]
        split
        case isTrue he => exact List.mem_cons_of_mem _ (he ▸ hm)
        case isFalse   => exact hm
      · exact hw

theorem enqueue_outcome (hs : job.state.isFinal = false) (ht : (enqueue job now r).outcome j = some t) :
    r.outcome j = some t := by
  unfold Redis.outcome at ht ⊢
  rw [enqueue_jobs, Redis.hset_jobs] at ht
  split at ht
  case isTrue  => simp [jobHash, hs, Option.filter] at ht
  case isFalse => exact ht

end RedisBroker

namespace World

-- Nothing changes in the broker, nor in the jobs of the database and their dependencies.
structure Keeps (w w' : World) : Prop where
  redis : w'.redis = w.redis
  jobs  : w'.postgres.jobs = w.postgres.jobs
  edges : w'.postgres.dependencies = w.postgres.dependencies

theorem Keeps.trans {w₁ w₂ w₃ : World} (h : Keeps w₁ w₂) (h' : Keeps w₂ w₃) : Keeps w₁ w₃ where
  redis := h'.redis.trans h.redis
  jobs  := h'.jobs.trans h.jobs
  edges := h'.edges.trans h.edges

variable {w : World}

theorem exec_now_keeps : w.Keeps (w.exec .now).1 :=
  ⟨rfl, rfl, rfl⟩

theorem exec_upsertJobAttempt_keeps {attempt : JobAttempt} : w.Keeps (w.exec (.repo (.upsertJobAttempt attempt))).1 := by
  constructor
  all_goals
    simp only [exec_repo, Postgres.exec, Postgres.upsertJobAttempt]
    try split <;> rfl

theorem exec_upsertDeadLetter_keeps {deadLetter : DeadLetter} :
    w.Keeps (w.exec (.repo (.upsertDeadLetter deadLetter))).1 := by
  constructor
  all_goals
    simp only [exec_repo, Postgres.exec, Postgres.upsertDeadLetter]
    try split <;> rfl

theorem updateIdempotencyOutcome_keeps {job : Job} {status : String} :
    w.Keeps ((updateIdempotencyOutcome job status).run World.exec w).1 := by
  unfold updateIdempotencyOutcome
  split <;> exact ⟨rfl, rfl, rfl⟩

end World

namespace Worker

variable {w w' : World} {job : Job} {deps : List JobDependency} {policy : DependencyFailurePolicy} {count : Nat}
         {sat : Bool} {now : Time}

theorem readinessOf_cons {e : JobDependency} {dep : Job} (hj : w.postgres.jobs e.dependsOnJobID = some dep) :
    (readinessOf policy count (e :: deps) sat).run World.exec w = (match policy with
      | .allowFailed => readinessOf policy count deps (sat && dep.state.isFinal)
      | .block =>
        if dep.state.isFailure then
          return (false, "dependency " ++ dep.id ++ " finished as " ++ toString dep.state)
        else
          readinessOf policy count deps (sat && dep.state = .completed) : Program (Bool × String)).run World.exec
      { w with calls := w.calls + 1 } := by
  have hg : w.exec (.repo (.getJob e.dependsOnJobID)) = ({ w with calls := w.calls + 1 }, .ok dep) := by
    simp [Postgres.exec, Postgres.getJob, hj]
  rw [readinessOf]
  refine (Prog.run_call (Call.repo (.getJob e.dependsOnJobID)) _).trans ?_
  rw [hg]
  cases policy
  case allowFailed => simp [JobState.isFinal]
  case block       => simp [JobState.isFailure]

-- A dependency does not hold its dependent back if it has finished in a way which the policy allows.
def Satisfied (w : World) (policy : DependencyFailurePolicy) (e : JobDependency) : Prop :=
  ∃ s, w.postgres.outcome e.dependsOnJobID = some s ∧ (s = .completed ∨ policy = .allowFailed)

def Broken (w : World) (e : JobDependency) (s : JobState) : Prop :=
  w.postgres.outcome e.dependsOnJobID = some s ∧ s.isFailure

def finishedAs (e : JobDependency) (s : JobState) : String :=
  "dependency " ++ e.dependsOnJobID ++ " finished as " ++ toString s

-- What the loop tells about the dependencies, all of which are known.
structure Readiness (w : World) (policy : DependencyFailurePolicy) (deps : List JobDependency) (sat : Bool)
    (res : Bool × String) : Prop where
  ready   : res.1 = true ↔ sat = true ∧ ∀ e ∈ deps, Satisfied w policy e
  blocked : policy = .block → (∃ e ∈ deps, ∃ s, Broken w e s) →
    ∃ e ∈ deps, ∃ s, Broken w e s ∧ res = (false, finishedAs e s)

theorem finishedAs_ne_empty (e : JobDependency) (s : JobState) : finishedAs e s ≠ "" := by
  simp [finishedAs]

theorem finishedAs_names {e : JobDependency} {s : JobState} : e.dependsOnJobID.toList <:+: (finishedAs e s).toList :=
  ⟨"dependency ".toList, (" finished as " ++ toString s).toList, by simp [finishedAs]⟩

theorem exists_broken {e : JobDependency} :
    (∃ s, Broken w e s) ↔ (w.postgres.outcome e.dependsOnJobID).any (·.isFailure) := by
  rw [Option.any_eq_true]
  rfl

theorem satisfied_iff {e : JobDependency} {dep : Job} (hj : w.postgres.jobs e.dependsOnJobID = some dep) :
    Satisfied w policy e ↔ dep.state.isFinal ∧ (dep.state = .completed ∨ policy = .allowFailed) := by
  simp [Satisfied, Postgres.outcome_eq hj]

theorem readinessOf_run (hp : w.postgres.Relational) (hd : ∀ e ∈ deps, (w.postgres.jobs e.dependsOnJobID).isSome) :
    ∃ calls res, (readinessOf policy count deps sat).run World.exec w = ({ w with calls }, res) ∧
      Readiness w policy deps sat res := by
  induction deps generalizing w sat
  case nil =>
    refine ⟨w.calls, _, rfl, ?_, by simp⟩
    cases sat <;> simp
  case cons e rest hi =>
    have ⟨he, hd⟩  := List.forall_mem_cons.mp hd
    have ⟨dep, he⟩ := Option.isSome_iff_exists.mp he
    have ho        := Postgres.outcome_eq he
    rw [readinessOf_cons he]
    cases policy
    case allowFailed =>
      have ⟨calls, res, hr, hb⟩ := @hi { w with calls := w.calls + 1 } (sat && dep.state.isFinal) hp hd
      refine ⟨calls, res, hr, ?_, fun hc => nomatch hc⟩
      rw [hb.ready, Bool.and_eq_true, List.forall_mem_cons, satisfied_iff he, and_assoc]
      simp [Satisfied]
    case block =>
      by_cases hf : dep.state.isFailure
      case pos =>
        have hn : ¬Satisfied w .block e := by
          rw [satisfied_iff he]
          rintro ⟨_, hs | hs⟩
          · simp [hs, JobState.isFailure] at hf
          · cases hs
        have hx : Broken w e dep.state := by simp [Broken, ho, JobState.isFinal_of_isFailure hf, hf]
        simp only [hf, if_true]
        refine ⟨w.calls + 1, _, rfl, ?_, fun _ _ => ⟨e, List.mem_cons_self, dep.state, hx, ?_⟩⟩
        · exact iff_of_false Bool.false_ne_true fun h => hn (List.forall_mem_cons.mp h.right).left
        · rw [finishedAs, hp.keyed _ dep he]
      case neg =>
        simp only [hf]
        have ⟨calls, res, hr, hb⟩ := @hi { w with calls := w.calls + 1 } (sat && dep.state = .completed) hp hd
        refine ⟨calls, res, hr, ?_, fun _ ⟨e', hm, s, hx⟩ => ?_⟩
        · rw [hb.ready, Bool.and_eq_true, List.forall_mem_cons, satisfied_iff he, and_assoc, decide_eq_true_iff]
          refine and_congr_right fun _ => and_congr_left fun _ => ?_
          cases dep.state <;> simp [JobState.isFinal]
        · have hm : e' ∈ rest := by
            refine (List.mem_cons.mp hm).resolve_left fun he' => hf ?_
            rw [Broken, he', ho] at hx
            split at hx
            case isTrue  => exact Option.some.inj hx.left ▸ hx.right
            case isFalse => simp at hx
          have ⟨e', hm, s, hx⟩ := hb.blocked rfl ⟨e', hm, s, hx⟩
          exact ⟨e', List.mem_cons_of_mem _ hm, s, hx⟩

theorem dependencyReadiness_run (hp : w.postgres.Relational)
    (hd : ∀ e ∈ deps, (w.postgres.jobs e.dependsOnJobID).isSome) :
    ∃ calls res, (dependencyReadiness job deps).run World.exec w = ({ w with calls }, res) ∧
      Readiness w job.dependencyPolicy deps true res := by
  unfold dependencyReadiness
  split
  case isFalse => exact readinessOf_run hp hd
  case isTrue h =>
    subst h
    exact ⟨w.calls, _, rfl, by simp, by simp⟩

-- What `resolveDependent` does when it knows whether the dependent is ready.
def resolution (dependent : Job) (count : Nat) (now : Time) (res : Bool × String) : Program Unit := do
  if res.1 then
    match ← Broker.enqueue (releasedJob dependent now) with
    | .error _ => return ()
    | .ok ()   =>
      let _ ← repo (.markJobQueued <| releasedJob dependent now)
      return ()
  else
    let blockedReason := if res.2 = "" then waitingOn count else res.2
    if dependent.blockedReason = blockedReason then
      return ()
    else
      let _ ← repo (.markJobQueued <| blockedJob dependent blockedReason now)
      return ()

section

variable {d : Job} {res : Bool × String}

theorem resolution_ready (h : res.1 = true) : (resolution d count now res).run World.exec w = ({ w with
    calls    := w.calls + 3
    redis    := RedisBroker.enqueue (releasedJob d now) w.now w.redis
    postgres := w.postgres.markJobQueued (releasedJob d now)
  }, ()) := by
  simp only [resolution, h, if_true]
  rfl

theorem resolution_same (h : res.1 = false) (hs : d.blockedReason = if res.2 = "" then waitingOn count else res.2) :
    (resolution d count now res).run World.exec w = (w, ()) := by
  simp only [resolution, h, ← hs]
  simp

theorem resolution_blocked (h : res.1 = false) (hs : d.blockedReason ≠ if res.2 = "" then waitingOn count else res.2) :
    (resolution d count now res).run World.exec w = ({ w with
      calls    := w.calls + 1
      postgres := w.postgres.markJobQueued (blockedJob d (if res.2 = "" then waitingOn count else res.2) now)
    }, ()) := by
  simp only [resolution, h, hs]
  rfl

end

-- The job `j`, which is blocked, may be released or get another reason.
structure Resolves (j : JobID) (w w' : World) : Prop where
  edges      : w'.postgres.dependencies = w.postgres.dependencies
  others     : ∀ k ≠ j, w'.postgres.jobs k = w.postgres.jobs k
  relational : w'.postgres.Relational
  outcome    : w'.postgres.outcome = w.postgres.outcome
  waits      : ∀ k, w.redis.Waits k → w'.redis.Waits k
  redis      : ∀ k s, w'.redis.outcome k = some s → w.redis.outcome k = some s

-- What a blocked job must be told when its dependencies have finished as in `o`. It is released if
-- it does not depend on how they finish, and otherwise it gets to know that one of them has failed.
structure Told (o : JobID → Option JobState) (w : World) (row : Job) : Prop where
  released  : row.dependencyPolicy = .allowFailed →
    (∀ e ∈ w.postgres.dependencies.edges, e.jobID = row.id → (o e.dependsOnJobID).isSome) → w.redis.Waits row.id
  explained : row.dependencyPolicy = .block →
    (∃ e ∈ w.postgres.dependencies.edges, e.jobID = row.id ∧ (o e.dependsOnJobID).any (·.isFailure)) →
    ∃ e ∈ w.postgres.dependencies.edges, e.jobID = row.id ∧ (o e.dependsOnJobID).any (·.isFailure) ∧
      ∃ row', w.postgres.jobs row.id = some row' ∧ row'.Names e.dependsOnJobID

-- A blocked job that is marked as queued, or still as blocked, has not finished.
theorem Resolves.mark {d d' : Job} {redis : Redis} {calls : Nat} (hp : w.postgres.Relational)
    (hd : w.postgres.jobs d.id = some d) (hb : d.state.isFinal = false) (hi : d'.id = d.id)
    (hs : d'.state.isFinal = false) (waits : ∀ k, w.redis.Waits k → redis.Waits k)
    (hr : ∀ k s, redis.outcome k = some s → w.redis.outcome k = some s) :
    Resolves d.id w { w with calls, redis, postgres := w.postgres.markJobQueued d' } where
  edges       := rfl
  waits       := waits
  redis       := hr
  relational  := hp.updateJob fun _ => rfl
  others k hk := by
    dsimp only
    rw [Postgres.markJobQueued, Postgres.updateJob_jobs, hi, if_neg hk]
  outcome     := by
    funext k
    unfold Postgres.outcome
    dsimp only
    rw [Postgres.markJobQueued, Postgres.updateJob_jobs, hi]
    split
    case isFalse => rfl
    case isTrue he => simp [he, hd, hb, hs, Option.filter]

theorem Resolves.refl {j : JobID} {calls : Nat} (hp : w.postgres.Relational) : Resolves j w { w with calls } where
  edges      := rfl
  relational := hp
  outcome    := rfl
  waits _    := id
  redis _ _  := id
  others _ _ := rfl

theorem releasedJob_state (job : Job) (now : Time) :
    (releasedJob job now).state = .queued ∨ (releasedJob job now).state = .scheduled := by
  unfold releasedJob
  dsimp only
  split
  · exact .inr rfl
  · exact .inl rfl

theorem releasedJob_not_final : (releasedJob job now).state.isFinal = false := by
  match releasedJob_state job now with
  | .inl hs => rw [hs]; rfl
  | .inr hs => rw [hs]; rfl

theorem resolution_run {d : Job} {res : Bool × String} (hp : w.postgres.Relational)
    (hd : w.postgres.jobs d.id = some d) (hb : d.state = .blocked)
    (hm : ∀ e, e ∈ deps ↔ e ∈ w.postgres.dependencies.edges ∧ e.jobID = d.id)
    (hr : Readiness w d.dependencyPolicy deps true res) :
    Resolves d.id w ((resolution d count now res).run World.exec w).1 ∧
    Told w.postgres.outcome ((resolution d count now res).run World.exec w).1 d := by
  have hf : d.state.isFinal = false := by rw [hb]; rfl
  have explained (hc : d.dependencyPolicy = .block) (hx : ∃ e ∈ w.postgres.dependencies.edges, e.jobID = d.id ∧
      (w.postgres.outcome e.dependsOnJobID).any (·.isFailure)) :
      ∃ e ∈ w.postgres.dependencies.edges, e.jobID = d.id ∧ (w.postgres.outcome e.dependsOnJobID).any (·.isFailure) ∧
        ∃ s, res = (false, finishedAs e s) := by
    have ⟨e, he, hj, hx⟩       := hx
    have ⟨e', he', s, hx, hres⟩ := hr.blocked hc ⟨e, (hm e).mpr ⟨he, hj⟩, exists_broken.mpr hx⟩
    exact ⟨e', ((hm e').mp he').left, ((hm e').mp he').right, exists_broken.mp ⟨s, hx⟩, s, hres⟩
  cases hres : res.1
  case true =>
    rw [resolution_ready hres]
    refine ⟨.mark hp hd hf rfl releasedJob_not_final (fun _ => RedisBroker.enqueue_waits_of_waits)
      (fun _ _ => RedisBroker.enqueue_outcome releasedJob_not_final), ?_, ?_⟩
    case refine_1 => exact fun _ _ => RedisBroker.enqueue_waits (releasedJob_state d now)
    case refine_2 =>
      intro hc hx
      have ⟨_, _, _, _, _, he⟩ := explained hc hx
      simp [he] at hres
  case false =>
    have released (hc : d.dependencyPolicy = .allowFailed)
        (hx : ∀ e ∈ w.postgres.dependencies.edges, e.jobID = d.id → (w.postgres.outcome e.dependsOnJobID).isSome) :
        False := by
      have hy := hr.ready.mpr ⟨rfl, fun e he =>
        have ⟨s, hs⟩ := Option.isSome_iff_exists.mp (hx e ((hm e).mp he).left ((hm e).mp he).right)
        ⟨s, hs, .inr hc⟩⟩
      simp [hres] at hy
    by_cases hs : d.blockedReason = if res.2 = "" then waitingOn count else res.2
    case pos =>
      rw [resolution_same hres hs]
      refine ⟨.refl hp, fun hc hx => (released hc hx).elim, fun hc hx => ?_⟩
      have ⟨e, he, hj, hx, s, hi⟩ := explained hc hx
      rw [hi, if_neg (finishedAs_ne_empty e s)] at hs
      exact ⟨e, he, hj, hx, d, hd, by rw [Job.Names, hs]; exact finishedAs_names⟩
    case neg =>
      rw [resolution_blocked hres hs]
      refine ⟨.mark hp hd hf rfl rfl (fun _ => id) (fun _ _ => id), fun hc hx => (released hc hx).elim, fun hc hx => ?_⟩
      have ⟨e, he, hj, hx, s, hi⟩ := explained hc hx
      rw [hi, if_neg (finishedAs_ne_empty e s)]
      have hd : (w.postgres.jobs (blockedJob d (finishedAs e s) now).id).isSome := by simp [blockedJob, hd]
      have ⟨row, hrow, _, hb⟩ := Postgres.markJobQueued_row (blockedJob d (finishedAs e s) now) hd
      exact ⟨e, he, hj, hx, row, hrow, by rw [Job.Names, hb]; exact finishedAs_names⟩

theorem resolveDependent_eq (d : Job) (now : Time) : resolveDependent d now =
    .call (.repo (.listDependencies d.id)) fun
      | .error _         => .ret ()
      | .ok dependencies => (dependencyReadiness d dependencies).bind (resolution d dependencies.length now) := by
  refine congrArg (Prog.call _) (funext fun res => ?_)
  cases res <;> rfl

-- The dependencies of the dependent are looked at first.
theorem resolveDependent_resolution {d : Job} (hp : w.postgres.Relational) : ∃ calls res,
    (resolveDependent d now).run World.exec w =
      (resolution d (w.postgres.listDependencies d.id).length now res).run World.exec { w with calls } ∧
    Readiness w d.dependencyPolicy (w.postgres.listDependencies d.id) true res ∧
    w.now ≤ { w with calls : World }.now := by
  have hp' : { w with calls := w.calls + 1 : World }.postgres.Relational := hp
  have ⟨calls, res, hx, hr⟩ := @dependencyReadiness_run _ d (w.postgres.listDependencies d.id) hp' fun e he =>
    (hp.known e (Postgres.mem_listDependencies.mp he).left).right
  refine ⟨calls, res, ?_, ⟨hr.ready, hr.blocked⟩, ?_⟩
  · rw [resolveDependent_eq, Prog.run_call, World.exec_repo]
    simp only [Postgres.exec, Prog.run_bind, hx]
  · have hn := World.now_le_run { w with calls := w.calls + 1 }
      (dependencyReadiness d (w.postgres.listDependencies d.id))
    rw [hx] at hn
    exact (w.clock.mono (Nat.le_succ w.calls)).trans hn

theorem resolveDependent_run {d : Job} (hp : w.postgres.Relational) (hd : w.postgres.jobs d.id = some d)
    (hb : d.state = .blocked) :
    Resolves d.id w ((resolveDependent d now).run World.exec w).1 ∧
    Told w.postgres.outcome ((resolveDependent d now).run World.exec w).1 d := by
  have hm e : e ∈ w.postgres.listDependencies d.id ↔ e ∈ w.postgres.dependencies.edges ∧ e.jobID = d.id :=
    Postgres.mem_listDependencies
  have ⟨calls, res, hrun, hr, _⟩ := @resolveDependent_resolution w now d hp
  have hp' : { w with calls : World }.postgres.Relational := hp
  have ⟨hs, ht⟩ := @resolution_run { w with calls } _ (w.postgres.listDependencies d.id).length now d res hp' hd hb hm
    ⟨hr.ready, hr.blocked⟩
  rw [hrun]
  exact ⟨⟨hs.edges, hs.others, hs.relational, hs.outcome, hs.waits, hs.redis⟩, ht⟩

-- What has been told to a job remains true when another one is resolved.
theorem Told.resolves {o : JobID → Option JobState} {row : Job} {j : JobID} (h : Told o w row)
    (hr : Resolves j w w') (hj : row.id ≠ j) : Told o w' row where
  released hc hx      := hr.waits _ <| h.released hc (hr.edges ▸ hx)
  explained hc hx     :=
    have ⟨e, he, hi, hx, row', hrow, hn⟩ := h.explained hc (hr.edges ▸ hx)
    ⟨e, hr.edges ▸ he, hi, hx, row', (hr.others _ hj).trans hrow, hn⟩

-- What the loop does to the blocked ones among the dependents.
structure ResolvesAll (w w' : World) : Prop where
  edges      : w'.postgres.dependencies = w.postgres.dependencies
  relational : w'.postgres.Relational
  outcome    : w'.postgres.outcome = w.postgres.outcome
  redis      : ∀ k s, w'.redis.outcome k = some s → w.redis.outcome k = some s

theorem resolveAll_run {ds : List Job} (hp : w.postgres.Relational) (hn : (ds.map (·.id)).Nodup)
    (hd : ∀ d ∈ ds, w.postgres.jobs d.id = some d) :
    ResolvesAll w ((resolveAll now ds).run World.exec w).1 ∧
    (∀ row o, o = w.postgres.outcome → (∀ d ∈ ds, d.id ≠ row.id) → Told o w row →
      Told o ((resolveAll now ds).run World.exec w).1 row) ∧
    ∀ d ∈ ds, d.state = .blocked → Told w.postgres.outcome ((resolveAll now ds).run World.exec w).1 d := by
  induction ds generalizing w
  case nil             => exact ⟨⟨rfl, hp, rfl, fun _ _ => id⟩, fun _ _ _ _ h => h, by simp⟩
  case cons d rest hi =>
    have ⟨hn', hn⟩ := List.nodup_cons.mp hn
    have ⟨hd, hds⟩ := List.forall_mem_cons.mp hd
    have hne (d') (hm : d' ∈ rest) : d'.id ≠ d.id := by
      have hm : d'.id ∈ rest.map (·.id) := List.mem_map_of_mem hm
      exact ne_of_mem_of_not_mem hm hn'
    by_cases hb : d.state = .blocked
    case neg =>
      have hrun : (resolveAll now (d :: rest)).run World.exec w = (resolveAll now rest).run World.exec w := by
        simp [resolveAll, hb]
      have ⟨ha, hk, ht⟩ := hi hp hn hds
      rw [hrun]
      refine ⟨ha, fun row o ho hm h => hk row o ho (fun d' hm' => hm d' (List.mem_cons_of_mem _ hm')) h, ?_⟩
      exact List.forall_mem_cons.mpr ⟨fun hs => absurd hs hb, ht⟩
    case pos =>
      have hrun : (resolveAll now (d :: rest)).run World.exec w =
          (resolveAll now rest).run World.exec ((resolveDependent d now).run World.exec w).1 := by
        simp [resolveAll, hb, Prog.run_bind]
      have ⟨hr, ht⟩ := @resolveDependent_run _ now d hp hd hb
      rw [hrun]
      generalize ((resolveDependent d now).run World.exec w).1 = w₁ at hr ht
      have ⟨ha, hk, ht'⟩ := hi hr.relational hn fun d' hm => (hr.others _ (hne d' hm)).trans (hds d' hm)
      refine ⟨⟨ha.edges.trans hr.edges, ha.relational, ha.outcome.trans hr.outcome,
        fun k s hs => hr.redis k s (ha.redis k s hs)⟩, fun row o ho hm h => ?_, List.forall_mem_cons.mpr ⟨fun _ => ?_, ?_⟩⟩
      · have ⟨hm, hms⟩ := List.forall_mem_cons.mp hm
        exact hk row o (ho.trans hr.outcome.symm) hms (h.resolves hr (Ne.symm hm))
      · exact hk d _ hr.outcome.symm hne ht
      · exact hr.outcome ▸ ht'

-- Every blocked dependent of a job is told how its dependencies have finished.
theorem resolveDependents_run (hp : w.postgres.Relational) :
    ResolvesAll w ((resolveDependents job now).run World.exec w).1 ∧
    ∀ e ∈ w.postgres.dependencies.edges, e.dependsOnJobID = job.id → ∀ row, w.postgres.jobs e.jobID = some row →
      row.state = .blocked → Told w.postgres.outcome ((resolveDependents job now).run World.exec w).1 row := by
  have hrun : (resolveDependents job now).run World.exec w =
      (resolveAll now (w.postgres.listDependentJobs job.id)).run World.exec { w with calls := w.calls + 1 } :=
    rfl
  have hrow (d) (hd : d ∈ w.postgres.listDependentJobs job.id) : w.postgres.jobs d.id = some d := by
    have ⟨e, _, _, he⟩ := Postgres.mem_listDependentJobs.mp hd
    rwa [hp.keyed e.jobID d he]
  have hp' : { w with calls := w.calls + 1 : World }.postgres.Relational := hp
  have ⟨ha, _, ht⟩ := @resolveAll_run _ now _ hp' (Postgres.listDependentJobs_nodup hp) hrow
  rw [hrun]
  refine ⟨⟨ha.edges, ha.relational, ha.outcome, ha.redis⟩, fun e he hj row hrow hb => ?_⟩
  exact ht row (Postgres.mem_listDependentJobs.mpr ⟨e, he, hj, hrow⟩) hb

end Worker
end JobPlatform
