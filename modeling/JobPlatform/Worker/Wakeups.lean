import JobPlatform.Service.Manager
import JobPlatform.Store.States
import JobPlatform.Worker.Runtime

namespace JobPlatform

namespace Waking

-- A process which has marked a job as completed lists its dependents, and then checks those which were
-- blocked, one after the other. The check of a dependent ends with the first dependency that is not completed.
inductive State
  | idle
  | beating
  | completed (upstream : JobID)
  | resolving (dependents : List JobID)
  | checking (dependent : JobID) (dependencies rest : List JobID)
  deriving DecidableEq

-- The process still has to look at a job with the given dependencies.
def State.Attends (j : JobID) (dependencies : List JobID) : State → Prop
  | completed upstream    => upstream ∈ dependencies
  | resolving dependents  => j ∈ dependents
  | checking dependent _ rest => j = dependent ∨ j ∈ rest
  | _                     => False

-- What a call does to the row of a job, unless it completes, blocks or releases one.
def Plain (c : RepoCall) : Prop :=
  (∀ job ∈ Postgres.marks c, job.state ≠ .completed ∧ job.state ≠ .blocked) ∧
  ∀ x ∈ Postgres.inserts c, x.1.state ≠ .completed

end Waking

abbrev Waking : Protocol Call Call.Resp where
  State := Waking.State
  Allows
    | q, .repo (.markJobCompleted job)  => q = .idle ∧ job.state = .completed
    | q, .repo (.listDependentJobs u)   => q = .idle ∨ q = .completed u
    | q, .repo (.listDependencies j)    => ∃ rest, q = .resolving (j :: rest)
    | q, .repo (.getJob j)              => ∀ d deps rest, q = .checking d deps rest → j ∈ deps
    | q, .repo (.markJobQueued job)     =>
      job.state ≠ .completed ∧ ∀ d deps rest, q = .checking d deps rest → job.id = d ∧ job.state ≠ .blocked
    | _, .repo c                        => Waking.Plain c
    | _, _                              => True
  Expected c r := ∃ w : World, (w.exec c).2 = r
  next
    | _,                       .repo (.markJobCompleted job),  _        => .completed job.id
    | _,                       .repo (.listDependentJobs _),   .ok jobs =>
      .resolving ((jobs.filter (·.state = .blocked)).map (·.id))
    | .resolving (_ :: rest),  .repo (.listDependencies j),    .ok deps => .checking j (deps.map (·.dependsOnJobID)) rest
    | .checking d deps rest,   .repo (.getJob _),              .ok job  =>
      if job.state = .completed then .checking d deps rest else .resolving rest
    | .checking _ _ rest,      .repo (.getJob _),              .error _ => .resolving rest
    | .checking _ _ rest,      .repo (.markJobQueued _),       _        => .resolving rest
    | q,                       _,                              _        => q

namespace Waking

-- The calls which may be made at any time, and which do not change the state.
def Steady : Call → Prop
  | .repo (.markJobCompleted _)  => False
  | .repo (.listDependentJobs _) => False
  | .repo (.listDependencies _)  => False
  | .repo (.getJob _)            => False
  | .repo (.markJobQueued _)     => False
  | .repo c                      => Plain c
  | _                            => True

variable {q : State} {α : Type} {p : Program α} {job : Job} {leaseToken : Token} {now : Time}

theorem Steady.allowed (c : Call) (hc : Steady c) : Waking.Allows q c ∧ ∀ r, Waking.next q c r = q := by
  cases c
  case repo c =>
    cases c
    case markJobCompleted  => exact hc.elim
    case listDependentJobs => exact hc.elim
    case listDependencies  => exact hc.elim
    case getJob            => exact hc.elim
    case markJobQueued     => exact hc.elim
    all_goals exact ⟨hc, fun _ => by cases q <;> rfl⟩
  all_goals exact ⟨trivial, fun _ => by cases q <;> rfl⟩

theorem plain_of_none {c : RepoCall} (hm : Postgres.marks c = none) (hi : Postgres.inserts c = none) : Plain c := by
  simp [Plain, hm, hi]

theorem plain_of_marks {c : RepoCall} (hm : Postgres.marks c = some job) (hi : Postgres.inserts c = none)
    (hs : job.state ≠ .completed ∧ job.state ≠ .blocked) : Plain c := by
  simpa [Plain, hm, hi] using hs

theorem updateIdempotencyOutcome {status : String} : (updateIdempotencyOutcome job status).Only Steady := by
  unfold JobPlatform.updateIdempotencyOutcome
  split
  case isTrue  => trivial
  case isFalse => exact ⟨trivial, fun _ => ⟨plain_of_none rfl rfl, fun _ => trivial⟩⟩

-- A check which is not over when all dependencies have been read has found all of them completed.
theorem readinessOf {policy : DependencyFailurePolicy} {count : Nat} {dependencies : List JobDependency} {j : JobID}
    {deps rest : List JobID} {allSatisfied : Bool} (hd : ∀ e ∈ dependencies, e.dependsOnJobID ∈ deps)
    (hq : q = .resolving rest ∨ q = .checking j deps rest ∧ allSatisfied = true) :
    (Worker.readinessOf policy count dependencies allSatisfied).Follows Waking
      (fun res q' => q' = .resolving rest ∨ q' = .checking j deps rest ∧ res.1 = true) q := by
  induction dependencies generalizing q allSatisfied
  case nil            => exact hq.imp_right fun ⟨he, ha⟩ => ⟨he, by simp [ha]⟩
  case cons e es hi =>
    obtain ⟨he, hd⟩ := List.forall_mem_cons.mp hd
    refine ⟨?_, fun res hr => ?_⟩
    case refine_1 =>
      intro d deps' rest' hc
      obtain rfl | ⟨rfl, _⟩ := hq
      · cases hc
      · cases hc; exact he
    case refine_2 =>
      clear hr
      cases res
      case error e =>
        obtain rfl | ⟨rfl, _⟩ := hq
        · exact .inl rfl
        · exact .inl rfl
      case ok job  =>
        have hn : Waking.next q (.repo (.getJob e.dependsOnJobID)) (.ok job) = .resolving rest ∨
            Waking.next q (.repo (.getJob e.dependsOnJobID)) (.ok job) = .checking j deps rest ∧
            allSatisfied = true ∧ job.state = .completed := by
          obtain rfl | ⟨rfl, ha⟩ := hq
          · exact .inl rfl
          · by_cases hc : job.state = .completed
            · exact .inr ⟨if_pos hc, ha, hc⟩
            · exact .inl (if_neg hc)
        cases policy
        case allowFailed =>
          exact hi hd (hn.imp_right fun ⟨he, ha, hc⟩ => ⟨he, by simp [ha, hc]⟩)
        case block       =>
          simp only [Prog.ret_bind]
          split
          case isTrue hf  =>
            refine .inl (hn.resolve_right fun ⟨_, _, hc⟩ => ?_)
            simp [hc] at hf
          case isFalse    => exact hi hd (hn.imp_right fun ⟨he, ha, hc⟩ => ⟨he, by simp [ha, hc]⟩)

theorem dependencyReadiness {dependencies : List JobDependency} {j : JobID} {rest : List JobID}
    (hq : q = .checking j (dependencies.map (·.dependsOnJobID)) rest) :
    (Worker.dependencyReadiness job dependencies).Follows Waking (fun res q' => q' = .resolving rest ∨
      q' = .checking j (dependencies.map (·.dependsOnJobID)) rest ∧ res.1 = true) q := by
  unfold Worker.dependencyReadiness
  split
  case isTrue  => exact .inr ⟨hq, rfl⟩
  case isFalse => exact readinessOf (fun e he => List.mem_map_of_mem he) (.inr ⟨hq, rfl⟩)

theorem releasedJob_state : (Worker.releasedJob job now).state ≠ .completed ∧
    (Worker.releasedJob job now).state ≠ .blocked := by
  unfold Worker.releasedJob
  dsimp only
  split <;> exact ⟨nofun, nofun⟩

theorem resolveDependent {rest : List JobID} :
    (Worker.resolveDependent job now).Follows Waking (fun _ q' => q' = .resolving rest) (.resolving (job.id :: rest)) := by
  refine ⟨⟨rest, rfl⟩, fun res hres => ?_⟩
  obtain ⟨w, rfl⟩ := hres
  refine .bind (p := Worker.dependencyReadiness job (w.postgres.listDependencies job.id)) ?_
  refine (dependencyReadiness rfl).mono fun (ready, blockedReason) q hq => ?_
  cases ready
  case true  =>
    have hn (released : Job) (res) : Waking.next q (.repo (.markJobQueued released)) res = .resolving rest := by
      obtain rfl | ⟨rfl, _⟩ := hq <;> rfl
    refine ⟨trivial, fun t _ => ⟨trivial, fun res hres => ?_⟩⟩
    obtain ⟨w', rfl⟩ := hres
    refine ⟨⟨releasedJob_state.left, ?_⟩, fun _ _ => ?_⟩
    · intro d deps rest' hc
      obtain rfl | ⟨rfl, _⟩ := hq
      · cases hc
      · cases hc; exact ⟨rfl, releasedJob_state.right⟩
    · exact hn ..
  case false =>
    obtain rfl := hq.resolve_right fun ⟨_, hr⟩ => nomatch hr
    dsimp only
    simp only [Bool.false_eq_true, if_false]
    split
    all_goals
      split
      case isTrue  => exact rfl
      case isFalse => exact ⟨⟨nofun, nofun⟩, fun _ _ => rfl⟩

-- The blocked ones among the dependents are checked in their order.
theorem resolveAll {dependents : List Job} : (Worker.resolveAll now dependents).Follows Waking
    (fun _ q' => q' = .resolving []) (.resolving ((dependents.filter (·.state = .blocked)).map (·.id))) := by
  induction dependents
  case nil                    => exact rfl
  case cons dependent rest hi =>
    unfold Worker.resolveAll
    split
    case isTrue hb  =>
      rw [List.filter_cons_of_pos (by simpa using hb)]
      refine .bind (resolveDependent.mono fun _ q hq => ?_)
      subst hq
      exact hi
    case isFalse hb =>
      rw [List.filter_cons_of_neg (by simpa using hb)]
      exact hi

-- There is nothing left to attend to.
def Done (q : State) : Prop :=
  ∀ j dependencies, ¬q.Attends j dependencies

theorem done_idle : Done .idle :=
  fun _ _ => id

theorem done_resolving : Done (.resolving []) :=
  fun _ _ h => nomatch h

theorem resolveDependents (hq : q = .idle ∨ q = .completed job.id) :
    (Worker.resolveDependents job now).Follows Waking (fun _ => Done) q := by
  refine ⟨hq, fun res hr => ?_⟩
  obtain ⟨w, rfl⟩ := hr
  have hn : Waking.next q (.repo (.listDependentJobs job.id)) (.ok (w.postgres.listDependentJobs job.id)) =
      .resolving (((w.postgres.listDependentJobs job.id).filter (·.state = .blocked)).map (·.id)) := by
    cases q <;> rfl
  have hr := @resolveAll now (w.postgres.listDependentJobs job.id)
  rw [← hn] at hr
  refine hr.mono fun _ q hq => ?_
  subst hq
  exact done_resolving

theorem follows_of_steady (h : p.Only Steady) : p.Follows Waking (fun _ q' => q' = q) q :=
  h.follows Steady.allowed

theorem steady (h : p.Only Steady) (hq : Done q) : p.Follows Waking (fun _ => Done) q :=
  (follows_of_steady h).mono fun _ q' (he : q' = q) => he ▸ hq

section

variable {r : Runtime} {err : HandlerError} {started finished : Time} {leased : LeasedJob}
         {policies : List RateLimitPolicy} {handling : Option Handling} {outcome : Except HandlerError String}

theorem forConcurrency {call : RateLimitPolicy → LimiterCall} : (Limiter.forConcurrency call policies).Only Steady :=
  Limiter.forConcurrency_only call fun _ _ => trivial

theorem heartbeatLoop {rounds : Nat} : (r.heartbeatLoop job leaseToken policies rounds).Only Steady := by
  induction rounds
  case zero           => trivial
  case succ rounds hi =>
    refine ⟨trivial, fun now => ⟨trivial, fun ok => ?_⟩⟩
    obtain _ | _ | _ := ok
    · trivial
    · trivial
    · refine ⟨trivial, fun heartbeatAt => ⟨plain_of_none rfl rfl, fun _ => ?_⟩⟩
      dsimp only
      split
      case isFalse => exact hi
      case isTrue  => exact ⟨trivial, fun _ => forConcurrency.bind fun _ => hi⟩

theorem throttle {retryAt : Time} {reason : String} :
    (Runtime.throttle job leaseToken retryAt reason).Only Steady := by
  refine ⟨trivial, fun _ => ⟨trivial, fun _ => ⟨trivial, fun ok => ?_⟩⟩⟩
  obtain _ | _ | _ := ok
  · trivial
  · trivial
  · exact ⟨plain_of_marks rfl rfl ⟨nofun, nofun⟩, fun _ => trivial⟩

theorem handleFailure : (r.handleFailure job leaseToken err started finished).Follows Waking (fun _ => Done) .idle := by
  have hs : (Runtime.failedJob job err started finished).state ≠ .completed ∧
      (Runtime.failedJob job err started finished).state ≠ .blocked := by
    unfold Runtime.failedJob
    dsimp only
    split <;> exact ⟨nofun, nofun⟩
  refine ⟨trivial, fun ok _ => ?_⟩
  obtain _ | _ | _ := ok
  · exact done_idle
  · exact done_idle
  · dsimp only
    split
    case h_1 =>
      exact ⟨plain_of_marks rfl rfl hs, fun _ _ => ⟨plain_of_none rfl rfl, fun _ _ => done_idle⟩⟩
    case h_2 =>
      let failed := Runtime.failedJob job err started finished
      refine ⟨plain_of_marks rfl rfl hs, fun _ _ =>
        Prog.Follows.bind (p := JobPlatform.updateIdempotencyOutcome failed "failed") ?_⟩
      refine (follows_of_steady updateIdempotencyOutcome).mono fun _ q hq => ?_
      subst hq
      exact ⟨plain_of_none rfl rfl, fun _ _ => ⟨plain_of_none rfl rfl, fun _ _ => resolveDependents (.inl rfl)⟩⟩

theorem finish : (r.finish job leaseToken outcome started).Follows Waking (fun _ => Done) .idle := by
  refine ⟨trivial, fun finished _ => ?_⟩
  cases outcome
  case error err => exact handleFailure
  case ok result =>
    refine ⟨trivial, fun ok _ => ?_⟩
    obtain _ | _ | _ := ok
    · exact done_idle
    · exact done_idle
    · let completed := Runtime.completedJob job result started finished
      refine ⟨⟨rfl, rfl⟩, fun _ _ =>
        Prog.Follows.bind (p := JobPlatform.updateIdempotencyOutcome completed "completed") ?_⟩
      refine (follows_of_steady updateIdempotencyOutcome).mono fun _ q hq => ?_
      subst hq
      exact ⟨plain_of_none rfl rfl, fun _ _ => resolveDependents (.inr rfl)⟩

theorem execute (hs : job.state = .active) :
    (r.execute job leaseToken policies handling started).Follows Waking (fun _ => Done) .idle := by
  refine ⟨plain_of_marks rfl rfl (by simp [hs]), fun _ _ => ⟨plain_of_none rfl rfl, fun _ _ => ?_⟩⟩
  cases handling
  case none   => exact handleFailure
  case some h => exact ⟨trivial, fun _ _ => finish⟩

theorem evaluateAndAcquire {leaseTTL : Duration} :
    (Limiter.evaluateAndAcquire job policies leaseTTL).Only Steady :=
  Limiter.evaluateAndAcquire_only trivial fun _ => trivial

theorem process : (r.process leased policies handling).Follows Waking (fun _ => Done) .idle := by
  refine ⟨trivial, fun started _ => ?_⟩
  have hs : (r.leasedJob leased started).state = .active := rfl
  dsimp only
  split
  case isFalse => exact execute hs
  case isTrue  =>
    let job := r.leasedJob leased started
    refine Prog.Follows.bind (p := Limiter.evaluateAndAcquire job policies r.leaseTTL) ?_
    refine (follows_of_steady evaluateAndAcquire).mono fun res q hq => ?_
    subst hq
    cases res
    case error e     => exact steady throttle done_idle
    case ok decision =>
      dsimp only
      split
      case isTrue  => exact .bind <| (execute hs).mono fun _ q hq => steady forConcurrency hq
      case isFalse => exact steady throttle done_idle

theorem work {handler : Job → Option Handling} : (r.work policies handler).Follows Waking (fun _ => Done) .idle := by
  refine ⟨trivial, fun now _ => ⟨trivial, fun res _ => ?_⟩⟩
  match res with
  | .error _                       => exact done_idle
  | .ok none                       => exact done_idle
  | .ok (some (jobID, leaseToken)) =>
    refine ⟨trivial, fun res _ => ?_⟩
    cases res
    case error => exact done_idle
    case ok    => exact process

end

theorem buildJob_open {req : JobRequest} {id : JobID} : (buildJob now req id).state ≠ .completed := by
  obtain hs | hs | hs := buildJob_state now req id <;> simp [hs]

theorem createJob {m : Manager} {req : JobRequest} (hs : job.state ≠ .completed) : (m.createJob req job).Only Steady := by
  have hp {c : RepoCall} {deps : List JobID} (hm : Postgres.marks c = none) (hi : Postgres.inserts c = some (job, deps)) :
      Plain c := by
    simpa [Plain, hm, hi] using hs
  unfold Manager.createJob
  dsimp only
  split
  case isTrue  => exact ⟨hp rfl rfl, fun _ => trivial⟩
  case isFalse =>
    refine ⟨hp rfl rfl, fun res => ?_⟩
    cases res
    case error => trivial
    case ok    => trivial

theorem enqueueJob {m : Manager} {req : JobRequest} {id : JobID} : (m.enqueueJob req id).Only Steady := by
  unfold Manager.enqueueJob
  split
  case h_1 => trivial
  case h_2 =>
    refine ⟨trivial, fun now => (createJob buildJob_open).bind fun res => ?_⟩
    cases res
    case error     => trivial
    case ok result =>
      dsimp only
      split
      case isTrue  => trivial
      case isFalse =>
        refine ⟨trivial, fun _ => ⟨trivial, fun res => ?_⟩⟩
        cases res
        case error => trivial
        case ok    => trivial

end Waking
end JobPlatform
