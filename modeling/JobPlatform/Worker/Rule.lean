import JobPlatform.System.Summary
import JobPlatform.Worker.Resolution

namespace JobPlatform

namespace Worker

-- A job may run when all of its dependencies are completed, or when they have all finished and its policy
-- allows them to fail.
def Ready (p : Postgres) (d : Job) : Prop :=
  ∀ e ∈ p.dependencies.edges, e.jobID = d.id →
    ∃ s, p.outcome e.dependsOnJobID = some s ∧ (s = .completed ∨ d.dependencyPolicy = .allowFailed)

-- The blocked jobs that depend on a job.
def Dependent (p : Postgres) (upstream : JobID) (d : Job) : Prop :=
  d.state = .blocked ∧ ∃ e ∈ p.dependencies.edges, e.dependsOnJobID = upstream ∧ p.jobs e.jobID = some d

-- The job goes to the delayed set if its time has not come yet, and otherwise to its ready list.
structure Released (d : Job) (now : Time) (w w' : World) : Prop where
  row     : ∃ row, w'.postgres.jobs d.id = some row ∧ row.state = (releasedJob d now).state ∧ row.blockedReason = ""
  hash    : w'.redis.jobs d.id = some (jobHash (releasedJob d now))
  delayed : ∀ z, (w'.redis.zsets z).score? d.id =
    if now < d.runAt ∧ z = .delayed then some (.ofInt d.runAt.unixMilli) else (w.redis.zsets z).score? d.id
  ready   : ∀ k, (w'.redis.lists k).count d.id =
    (w.redis.lists k).count d.id + if ¬now < d.runAt ∧ k = .ready d.queue d.priority then 1 else 0

-- The job stays blocked, and it is told which of its dependencies has failed if that may not happen.
structure Held (d : Job) (w w' : World) : Prop where
  redis  : w.redis.Unchanged d.id w'.redis
  row    : ∃ row, w'.postgres.jobs d.id = some row ∧ row.state = .blocked ∧
    (d.dependencyPolicy = .block → (∃ e ∈ w.postgres.dependencies.edges, e.jobID = d.id ∧ ∃ s, Broken w e s) →
      ∃ e ∈ w.postgres.dependencies.edges, e.jobID = d.id ∧ ∃ s, Broken w e s ∧ row.blockedReason = finishedAs e s)

-- What happens to each job when the dependents of another one are resolved.
structure Resolved (upstream : JobID) (now : Time) (w w' : World) : Prop where
  released : ∀ d, Dependent w.postgres upstream d → Ready w.postgres d → Released d now w w'
  held     : ∀ d, Dependent w.postgres upstream d → ¬Ready w.postgres d → Held d w w'
  others   : ∀ k, (∀ d, Dependent w.postgres upstream d → d.id ≠ k) → Untouched k w w'

variable {w w' w'' : World} {d : Job} {now t : Time} {k : JobID} {r : Redis}

namespace Released

theorem before (hu : Untouched d.id w w') (h : Released d now w' w'') : Released d now w w'' where
  row       := h.row
  hash      := h.hash
  delayed z := by rw [h.delayed, hu.redis.score]
  ready k   := by rw [h.ready, hu.redis.count]

theorem after (h : Released d now w w') (hu : Untouched d.id w' w'') : Released d now w w'' where
  row       := hu.row ▸ h.row
  hash      := hu.redis.jobs.trans h.hash
  delayed z := (hu.redis.score z).trans (h.delayed z)
  ready k   := (hu.redis.count k).trans (h.ready k)

end Released

theorem Held.after (h : Held d w w') (hu : Untouched d.id w' w'') : Held d w w'' where
  redis := h.redis.trans hu.redis
  row   := hu.row ▸ h.row

theorem Ready.congr (he : w'.postgres.dependencies = w.postgres.dependencies)
    (ho : w'.postgres.outcome = w.postgres.outcome) : Ready w'.postgres d ↔ Ready w.postgres d := by
  rw [Ready, Ready, he, ho]

theorem Held.before (he : w'.postgres.dependencies = w.postgres.dependencies)
    (ho : w'.postgres.outcome = w.postgres.outcome) (hu : Untouched d.id w w') (h : Held d w' w'') : Held d w w'' where
  redis := hu.redis.trans h.redis
  row   := by
    have hb : Broken w' = Broken w := by
      funext e s
      rw [Broken, Broken, ho]
    exact hb ▸ he ▸ h.row

theorem enqueue_hash : (RedisBroker.enqueue (releasedJob d now) t r).jobs d.id = some (jobHash (releasedJob d now)) := by
  rw [RedisBroker.enqueue_jobs, Redis.hset_jobs]
  exact if_pos rfl

-- A job whose time had come before is not delayed.
theorem enqueue_released (hn : now ≤ t) :
    RedisBroker.enqueue (releasedJob d now) t r = if now < d.runAt
      then (r.hset d.id fun _ => jobHash (releasedJob d now)).zadd .delayed d.id (.ofInt d.runAt.unixMilli)
      else (r.hset d.id fun _ => jobHash (releasedJob d now)).lpush (.ready d.queue d.priority) d.id := by
  unfold RedisBroker.enqueue releasedJob
  by_cases h : now < d.runAt
  case pos => simp [h]
  case neg =>
    have ht : ¬t < d.runAt := fun ht => h (hn.trans_lt ht)
    simp [h, ht]

theorem released_of_ready (hd : w.postgres.jobs d.id = some d) (hn : now ≤ w.now) {calls : Nat} :
    Released d now w { w with
      calls
      redis    := RedisBroker.enqueue (releasedJob d now) w.now w.redis
      postgres := w.postgres.markJobQueued (releasedJob d now)
    } where
  row       := Postgres.markJobQueued_row (releasedJob d now) (Option.isSome_of_mem hd)
  hash      := enqueue_hash
  delayed z := by
    dsimp only
    rw [enqueue_released hn]
    split
    case isTrue h  => simp [Redis.zadd_score?, h]
    case isFalse h => simp [h]
  ready k   := by
    dsimp only
    rw [enqueue_released hn]
    split
    case isTrue h  => simp [h]
    case isFalse h =>
      simp only [Redis.lpush_lists, Redis.hset_lists, h, not_false_eq_true, true_and]
      split
      case isTrue he => simp [he]
      case isFalse   => rfl

theorem ready_iff {deps : List JobDependency} {res : Bool × String}
    (hm : ∀ e, e ∈ deps ↔ e ∈ w.postgres.dependencies.edges ∧ e.jobID = d.id)
    (hr : Readiness w d.dependencyPolicy deps true res) : Ready w.postgres d ↔ res.1 = true := by
  rw [hr.ready, and_iff_right rfl]
  exact ⟨fun h e he => h e ((hm e).mp he).left ((hm e).mp he).right, fun h e he hj => h e ((hm e).mpr ⟨he, hj⟩)⟩

theorem resolution_rule {deps : List JobDependency} {count : Nat} {res : Bool × String}
    (hd : w.postgres.jobs d.id = some d) (hb : d.state = .blocked) (hn : now ≤ w.now)
    (hm : ∀ e, e ∈ deps ↔ e ∈ w.postgres.dependencies.edges ∧ e.jobID = d.id)
    (hr : Readiness w d.dependencyPolicy deps true res) :
    let w' := ((resolution d count now res).run World.exec w).1
    (Ready w.postgres d → Released d now w w') ∧ (¬Ready w.postgres d → Held d w w') ∧
    ∀ k ≠ d.id, Untouched k w w' := by
  have hs : (w.postgres.jobs d.id).isSome := Option.isSome_of_mem hd
  rw [ready_iff hm hr]
  dsimp only
  cases hres : res.1
  case true  =>
    rw [resolution_ready hres]
    refine ⟨fun _ => released_of_ready hd hn, fun h => absurd rfl h, fun k hk => ⟨?_, ?_⟩⟩
    · exact RedisBroker.enqueue_unchanged hk
    · exact Postgres.markJobQueued_of_ne hk
  case false =>
    have told (hc : d.dependencyPolicy = .block)
        (hx : ∃ e ∈ w.postgres.dependencies.edges, e.jobID = d.id ∧ ∃ s, Broken w e s) :
        ∃ e ∈ w.postgres.dependencies.edges, e.jobID = d.id ∧ ∃ s, Broken w e s ∧
          (if res.2 = "" then waitingOn count else res.2) = finishedAs e s := by
      have ⟨e, he, hj, hx⟩       := hx
      have ⟨e, he, s, hx, hres⟩  := hr.blocked hc ⟨e, (hm e).mpr ⟨he, hj⟩, hx⟩
      exact ⟨e, ((hm e).mp he).left, ((hm e).mp he).right, s, hx, by rw [hres, if_neg (finishedAs_ne_empty e s)]⟩
    by_cases hreason : d.blockedReason = if res.2 = "" then waitingOn count else res.2
    case pos =>
      rw [resolution_same hres hreason]
      refine ⟨(fun h => nomatch h), fun _ => ⟨.refl .., d, hd, hb, ?_⟩, fun _ _ => .refl⟩
      exact hreason ▸ told
    case neg =>
      rw [resolution_blocked hres hreason]
      have ⟨row, hrow, hstate, hblocked⟩ := Postgres.markJobQueued_row
        (blockedJob d (if res.2 = "" then waitingOn count else res.2) now) hs
      refine ⟨(fun h => nomatch h), fun _ => ⟨.refl .., row, hrow, hstate, ?_⟩, fun k hk => ⟨.refl .., ?_⟩⟩
      · exact hblocked.symm ▸ told
      · exact Postgres.markJobQueued_of_ne hk

theorem resolveDependent_rule (hp : w.postgres.Relational) (hd : w.postgres.jobs d.id = some d) (hb : d.state = .blocked)
    (hn : now ≤ w.now) :
    let w' := ((resolveDependent d now).run World.exec w).1
    (Ready w.postgres d → Released d now w w') ∧ (¬Ready w.postgres d → Held d w w') ∧
    ∀ k ≠ d.id, Untouched k w w' := by
  have ⟨calls, res, hrun, hr, hc⟩ := @resolveDependent_resolution w now d hp
  have ⟨hready, hheld, ho⟩ := @resolution_rule { w with calls } d now _
    (w.postgres.listDependencies d.id).length res hd hb (hn.trans hc) (fun _ => Postgres.mem_listDependencies)
    ⟨hr.ready, hr.blocked⟩
  dsimp only
  rw [hrun]
  exact ⟨fun h => ⟨(hready h).row, (hready h).hash, (hready h).delayed, (hready h).ready⟩,
    fun h => ⟨(hheld h).redis, (hheld h).row⟩, fun k hk => ⟨(ho k hk).redis, (ho k hk).row⟩⟩

-- The blocked ones among the jobs are looked at one after the other.
theorem resolveAll_rule {ds : List Job} (hp : w.postgres.Relational) (hn : now ≤ w.now) (hi : (ds.map (·.id)).Nodup)
    (hd : ∀ d ∈ ds, w.postgres.jobs d.id = some d) :
    let w' := ((resolveAll now ds).run World.exec w).1
    (∀ d ∈ ds, d.state = .blocked →
      (Ready w.postgres d → Released d now w w') ∧ (¬Ready w.postgres d → Held d w w')) ∧
    ∀ k, (∀ d ∈ ds, d.state = .blocked → d.id ≠ k) → Untouched k w w' := by
  induction ds generalizing w
  case nil             => exact ⟨by simp, fun _ _ => .refl⟩
  case cons d rest ih =>
    obtain ⟨hnew, hi⟩ := List.nodup_cons.mp hi
    obtain ⟨hd, hds⟩  := List.forall_mem_cons.mp hd
    have hne (d') (hm : d' ∈ rest) : d'.id ≠ d.id := fun he => hnew (List.mem_map.mpr ⟨d', hm, he⟩)
    by_cases hb : d.state = .blocked
    case neg =>
      have hrun : (resolveAll now (d :: rest)).run World.exec w = (resolveAll now rest).run World.exec w := by
        simp [resolveAll, hb]
      obtain ⟨ha, ho⟩ := ih hp hn hi hds
      rw [hrun]
      refine ⟨List.forall_mem_cons.mpr ⟨fun hs => absurd hs hb, ha⟩, fun k hk => ho k fun d' hm => ?_⟩
      exact hk d' (List.mem_cons_of_mem _ hm)
    case pos =>
      have hrun : (resolveAll now (d :: rest)).run World.exec w =
          (resolveAll now rest).run World.exec ((resolveDependent d now).run World.exec w).1 := by
        simp [resolveAll, hb, Prog.run_bind]
      obtain ⟨hr, _⟩                := @resolveDependent_run w now d hp hd hb
      obtain ⟨hready, hheld, hothers⟩ := resolveDependent_rule hp hd hb hn
      have hc := w.now_le_run (resolveDependent d now)
      rw [hrun]
      generalize ((resolveDependent d now).run World.exec w).1 = w₁ at hr hready hheld hothers hc
      obtain ⟨ha, ho⟩ := ih hr.relational (hn.trans hc) hi fun d' hm => (hr.others _ (hne d' hm)).trans (hds d' hm)
      have hu := ho d.id fun d' hm _ => hne d' hm
      refine ⟨List.forall_mem_cons.mpr ⟨fun _ => ?_, fun d' hm hb' => ?_⟩, fun k hk => ?_⟩
      · exact ⟨fun h => (hready h).after hu, fun h => (hheld h).after hu⟩
      · have hu := hothers d'.id (hne d' hm)
        obtain ⟨hready, hheld⟩ := ha d' hm hb'
        rw [Ready.congr hr.edges hr.outcome] at hready hheld
        exact ⟨fun h => (hready h).before hu, fun h => (hheld h).before hr.edges hr.outcome hu⟩
      · obtain ⟨hk, hks⟩ := List.forall_mem_cons.mp hk
        exact (hothers k (Ne.symm (hk hb))).trans (ho k hks)

theorem resolveDependents_resolved {upstream : Job} (hp : w.postgres.Relational) (hn : now ≤ w.now) :
    Resolved upstream.id now w ((resolveDependents upstream now).run World.exec w).1 := by
  have hrun : (resolveDependents upstream now).run World.exec w =
      (resolveAll now (w.postgres.listDependentJobs upstream.id)).run World.exec { w with calls := w.calls + 1 } :=
    rfl
  have hd (d) : Dependent w.postgres upstream.id d ↔ d ∈ w.postgres.listDependentJobs upstream.id ∧ d.state = .blocked := by
    rw [Postgres.mem_listDependentJobs, and_comm]
    rfl
  have hrow (d) (hd : d ∈ w.postgres.listDependentJobs upstream.id) : w.postgres.jobs d.id = some d := by
    have ⟨e, _, _, he⟩ := Postgres.mem_listDependentJobs.mp hd
    rwa [hp.keyed e.jobID d he]
  have hp' : { w with calls := w.calls + 1 : World }.postgres.Relational := hp
  have ⟨ha, ho⟩ := @resolveAll_rule _ now _ hp' (hn.trans (w.clock.mono (Nat.le_succ _)))
    (Postgres.listDependentJobs_nodup hp) hrow
  rw [hrun]
  constructor
  case released =>
    intro d hdep hr
    have ⟨hm, hb⟩ := (hd d).mp hdep
    have h := (ha d hm hb).left hr
    exact ⟨h.row, h.hash, h.delayed, h.ready⟩
  case held     =>
    intro d hdep hr
    have ⟨hm, hb⟩ := (hd d).mp hdep
    have h := (ha d hm hb).right hr
    exact ⟨h.redis, h.row⟩
  case others   =>
    intro k hk
    have h := ho k fun d hm hb => hk d ((hd d).mpr ⟨hm, hb⟩)
    exact ⟨h.redis, h.row⟩

-- Whether a job may run does not depend on the order of its dependencies.
theorem dependencyReadiness_perm {deps deps' : List JobDependency} (hp : w.postgres.Relational)
    (hd : deps ⊆ w.postgres.dependencies.edges) (h : deps.Perm deps') :
    ((dependencyReadiness d deps').run World.exec w).2.1 = ((dependencyReadiness d deps).run World.exec w).2.1 := by
  have hk (e) (he : e ∈ deps) := (hp.known e (hd he)).right
  have ⟨_, res, hx, hr⟩   := @dependencyReadiness_run w d deps hp hk
  have ⟨_, res', hx', hr'⟩ := @dependencyReadiness_run w d deps' hp fun e he => hk e (h.mem_iff.mpr he)
  rw [hx, hx']
  refine Bool.eq_iff_iff.mpr ?_
  rw [hr.ready, hr'.ready]
  simp only [h.mem_iff]

-- However the dependents and their dependencies are listed, the same jobs are released.
theorem resolveDependents_rule {upstream : Job} (hp : w.postgres.Relational) (hn : now ≤ w.now) :
    Resolved upstream.id now w ((resolveDependents upstream now).run World.exec w).1 ∧
    ∀ d deps deps', deps ⊆ w.postgres.dependencies.edges → deps.Perm deps' →
      ((dependencyReadiness d deps').run World.exec w).2.1 = ((dependencyReadiness d deps).run World.exec w).2.1 :=
  ⟨resolveDependents_resolved hp hn, fun _ _ _ hd h => dependencyReadiness_perm hp hd h⟩

namespace Sample

def upstream : Job :=
  { buildJob 0 (.plain "email.send") "job-1" with state := .completed }

def dependent : Job :=
  { buildJob 0 (.plain "email.send") "job-2" with state := .blocked, blockedReason := waitingOn 1 }

-- A job waits for another one, which has been completed.
def waiting : World :=
  { World.sample with
    postgres := { Postgres.empty with
      jobs         := Function.update (Function.update Postgres.empty.jobs "job-1" (some upstream)) "job-2" (some dependent)
      dependencies := DependencyTable.empty.insert ⟨"job-2", "job-1"⟩
    }
  }

theorem relational : waiting.postgres.Relational where
  keyed j job h := by
    simp only [waiting, Function.update_apply, Postgres.empty] at h
    split at h
    case isTrue hj  => cases h; exact hj.symm
    case isFalse    =>
      split at h
      case isTrue hj => cases h; exact hj.symm
      case isFalse   => cases h
  known := by decide

end Sample

theorem resolveDependents_rule_sample :
    Resolved "job-1" 0 Sample.waiting ((resolveDependents Sample.upstream 0).run World.exec Sample.waiting).1 ∧
    ∀ d deps deps', deps ⊆ Sample.waiting.postgres.dependencies.edges → deps.Perm deps' →
      ((dependencyReadiness d deps').run World.exec Sample.waiting).2.1 =
      ((dependencyReadiness d deps).run World.exec Sample.waiting).2.1 :=
  @resolveDependents_rule Sample.waiting 0 Sample.upstream Sample.relational (by decide)

end Worker
end JobPlatform
