import JobPlatform.Store.Effects

namespace JobPlatform.Postgres

-- What the keys of the tables guarantee.
structure Relational (p : Postgres) : Prop where
  keyed : ∀ j job, p.jobs j = some job → job.id = j
  known : ∀ e ∈ p.dependencies.edges, (p.jobs e.jobID).isSome ∧ (p.jobs e.dependsOnJobID).isSome

def states (p : Postgres) (j : JobID) : Option JobState :=
  (p.jobs j).map (·.state)

def dependenciesOf (p : Postgres) (j : JobID) : List JobID :=
  (p.listDependencies j).map (·.dependsOnJobID)

-- A blocked job may be released when all of its recorded dependencies are completed.
def Releasable (p : Postgres) (j : JobID) : Prop :=
  p.states j = some .blocked ∧
  ∀ e ∈ p.dependencies.edges, e.jobID = j → p.states e.dependsOnJobID = some .completed

instance {p : Postgres} {j : JobID} : Decidable (p.Releasable j) :=
  inferInstanceAs (Decidable (_ ∧ ∀ e ∈ p.dependencies.edges, _ → _))

-- The job whose state is written to its row by the call.
def marks : RepoCall → Option Job
  | .markJobQueued job     => some job
  | .markJobActive job     => some job
  | .markJobCompleted job  => some job
  | .markJobRetrying job _ => some job
  | .markJobFailed job     => some job
  | .markJobCanceled job   => some job
  | .markJobThrottled job  => some job
  | _                      => none

-- The job and the dependencies which a call may insert.
def inserts : RepoCall → Option (Job × List JobID)
  | .createJobBundle job dependencies            => some (job, dependencies)
  | .createJobWithIdempotency job dependencies _ => some (job, dependencies)
  | _                                            => none

-- The job has been inserted together with its dependencies.
structure Inserted (job : Job) (dependencies : List JobID) (p p' : Postgres) : Prop where
  absent : p.jobs job.id = none
  jobs   : p'.jobs = Function.update p.jobs job.id (some (newRow job))
  edges  : ∀ e, e ∈ p'.dependencies.edges ↔
    e ∈ p.dependencies.edges ∨ e.jobID = job.id ∧ e.dependsOnJobID ∈ dependencies ∧ e.dependsOnJobID ≠ ""
  known  : ∀ d ∈ dependencies, d = "" ∨ d = job.id ∨ (p.jobs d).isSome

variable {p p' : Postgres} {job : Job} {j k u : JobID} {dependencies : List JobID} {c : RepoCall} {f : Job → Job}
         {e : JobDependency} {s : JobState}

theorem updateJob_jobs : (p.updateJob j f).jobs k = if k = j then (p.jobs k).map f else p.jobs k := by
  unfold updateJob
  by_cases hk : k = j
  case pos => simp [hk]
  case neg => simp [hk]

theorem mem_listDependencies : e ∈ p.listDependencies j ↔ e ∈ p.dependencies.edges ∧ e.jobID = j := by
  simp [listDependencies]

theorem mem_listDependentJobs :
    job ∈ p.listDependentJobs j ↔ ∃ e ∈ p.dependencies.edges, e.dependsOnJobID = j ∧ p.jobs e.jobID = some job := by
  simp [listDependentJobs, and_assoc]

-- The dependents of a job are listed once.
theorem listDependentJobs_nodup (hp : p.Relational) : ((p.listDependentJobs j).map (·.id)).Nodup := by
  let ids := (p.dependencies.edges.filter (·.dependsOnJobID = j)).map (·.jobID)
  have hids : ids.Nodup := by
    refine List.Nodup.map_on ?_ (p.dependencies.nodup.filter _)
    intro ⟨_, _⟩ he ⟨_, _⟩ he' h
    simp_all
  have hl : (p.listDependentJobs j).Perm (ids.filterMap p.jobs) := by
    rw [List.filterMap_map]
    exact List.perm_insertionSort ..
  have hn : (p.listDependentJobs j).Nodup :=
    hl.nodup_iff.mpr <| hids.filterMap fun i i' d hi hi' => (hp.keyed i d hi).symm.trans (hp.keyed i' d hi')
  have hrow {d : Job} (hd : d ∈ p.listDependentJobs j) : p.jobs d.id = some d := by
    have ⟨e, _, _, he⟩ := mem_listDependentJobs.mp hd
    rwa [hp.keyed e.jobID d he]
  exact hn.map_on fun d hd d' hd' he => Option.some.inj <| by rw [← hrow hd, ← hrow hd', he]

theorem Relational.updateJob (hp : p.Relational) (hf : ∀ job, (f job).id = job.id) : (p.updateJob j f).Relational where
  keyed k job hk := by
    rw [updateJob_jobs] at hk
    split at hk
    case isFalse => exact hp.keyed k job hk
    case isTrue  =>
      have ⟨job', hk, he⟩ := Option.map_eq_some_iff.mp hk
      rw [← he, hf, hp.keyed k job' hk]
  known e he := by
    have hs (k : JobID) : ((p.updateJob j f).jobs k).isSome = (p.jobs k).isSome := by
      rw [updateJob_jobs]
      split <;> simp
    rw [hs, hs]
    exact hp.known e he

theorem mem_dependenciesOf : u ∈ p.dependenciesOf j ↔ ⟨j, u⟩ ∈ p.dependencies.edges := by
  simp only [dependenciesOf, List.mem_map, mem_listDependencies]
  constructor
  case mp  => rintro ⟨e, ⟨he, rfl⟩, rfl⟩; exact he
  case mpr => exact fun he => ⟨_, ⟨he, rfl⟩, rfl⟩

theorem insertDependenciesTx_edges (h : insertDependenciesTx j dependencies p = .ok p') (e : JobDependency) :
    e ∈ p'.dependencies.edges ↔
    e ∈ p.dependencies.edges ∨ e.jobID = j ∧ e.dependsOnJobID ∈ dependencies ∧ e.dependsOnJobID ≠ "" := by
  induction dependencies generalizing p
  case nil            => cases h; simp
  case cons d rest hi =>
    unfold insertDependenciesTx at h
    split at h
    case isTrue hd  =>
      rw [hi h, List.mem_cons]
      constructor
      case mp  =>
        rintro (he | ⟨hj, hm, hn⟩)
        · exact .inl he
        · exact .inr ⟨hj, .inr hm, hn⟩
      case mpr =>
        rintro (he | ⟨hj, hm, hn⟩)
        · exact .inl he
        · exact .inr ⟨hj, hm.resolve_left fun he => hn (he.trans hd), hn⟩
    case isFalse hd =>
      split at h
      case isTrue  => cases h
      case isFalse =>
        rw [hi h, List.mem_cons, DependencyTable.mem_insert]
        constructor
        case mp =>
          rintro ((rfl | he) | ⟨hj, hm, hn⟩)
          · exact .inr ⟨rfl, .inl rfl, hd⟩
          · exact .inl he
          · exact .inr ⟨hj, .inr hm, hn⟩
        case mpr =>
          rintro (he | ⟨hj, hm | hm, hn⟩)
          · exact .inl (.inr he)
          · exact .inl (.inl (by cases e; simp_all))
          · exact .inr ⟨hj, hm, hn⟩

theorem storeTx_inserted (h : storeTx job dependencies p = .ok p') : Inserted job dependencies p p' where
  absent  := (storeTx_eq_ok h).left.absent
  jobs    := (storeTx_eq_ok h).right.left
  edges e := insertDependenciesTx_edges (storeTx_steps h).right e
  known   := (storeTx_eq_ok h).left.known

-- The tables stay as they are, as far as jobs and dependencies are concerned.
structure Rests (p p' : Postgres) : Prop where
  states       : p'.states = p.states
  dependencies : p'.dependencies = p.dependencies

theorem exec_inserts (h : inserts c = some (job, dependencies)) :
    Rests p (p.exec c).1 ∨ Inserted job dependencies p (p.exec c).1 := by
  cases c
  case createJobBundle job' dependencies' =>
    cases h
    exact createJobBundle_rule (Q := fun p' => Rests p p' ∨ Inserted job dependencies p p') (.inl ⟨rfl, rfl⟩)
      fun _ hs => .inr (storeTx_inserted hs)
  case createJobWithIdempotency job' dependencies' dedupeWindow =>
    cases h
    refine createJobWithIdempotency_rule (Q := fun p' => Rests p p' ∨ Inserted job dependencies p p') (.inl ⟨rfl, rfl⟩)
      fun _ hs => .inr ?_
    have hi := storeTx_inserted hs
    exact ⟨hi.absent, hi.jobs, hi.edges, hi.known⟩
  all_goals cases h

theorem updateJob_states (hf : ∀ row, (f row).state = s) :
    (p.updateJob j f).states = Function.update p.states j ((p.states j).map fun _ => s) := by
  funext k
  unfold states
  rw [updateJob_jobs, Function.update_apply]
  split
  case isTrue hk => simp [hk, Function.comp_def, hf]
  case isFalse   => rfl

theorem exec_marks (h : marks c = some job) :
    (p.exec c).1.states = Function.update p.states job.id ((p.states job.id).map fun _ => job.state) ∧
    (p.exec c).1.dependencies = p.dependencies := by
  cases c
  case createJobBundle          => cases h
  case createJobWithIdempotency => cases h
  case getJob                   => cases h
  case updateJobHeartbeat       => cases h
  case listDependencies         => cases h
  case listDependentJobs        => cases h
  case upsertJobAttempt         => cases h
  case upsertDeadLetter         => cases h
  case deleteDeadLetters        => cases h
  case updateIdempotencyOutcome => cases h
  all_goals
    cases h
    exact ⟨updateJob_states fun _ => rfl, rfl⟩

theorem exec_rests (hm : marks c = none) (hi : inserts c = none) : Rests p (p.exec c).1 := by
  cases c
  case createJobBundle          => cases hi
  case createJobWithIdempotency => cases hi
  case updateJobHeartbeat       =>
    refine ⟨?_, rfl⟩
    funext k
    unfold states exec updateJobHeartbeat
    rw [updateJob_jobs]
    split
    case isTrue  => simp [Function.comp_def]
    case isFalse => rfl
  case upsertJobAttempt         =>
    unfold exec upsertJobAttempt
    dsimp only
    split <;> exact ⟨rfl, rfl⟩
  case upsertDeadLetter         =>
    unfold exec upsertDeadLetter
    dsimp only
    split <;> exact ⟨rfl, rfl⟩
  all_goals first | exact ⟨rfl, rfl⟩ | cases hm

theorem Inserted.relational (h : Inserted job dependencies p p') (hp : p.Relational) : p'.Relational where
  keyed j row hj := by
    rw [h.jobs, Function.update_apply] at hj
    split at hj
    case isFalse   => exact hp.keyed j row hj
    case isTrue hi =>
      cases hj
      exact hi.symm
  known e he     := by
    have hs (k : JobID) (hk : k = job.id ∨ (p.jobs k).isSome) : (p'.jobs k).isSome := by
      rw [h.jobs, Function.update_apply]
      split
      case isTrue     => rfl
      case isFalse hn => exact hk.resolve_left hn
    match (h.edges e).mp he with
    | .inl he           => exact ⟨hs _ (.inr (hp.known e he).left), hs _ (.inr (hp.known e he).right)⟩
    | .inr ⟨hj, hm, hn⟩ => exact ⟨hs _ (.inl hj), hs _ ((h.known _ hm).resolve_left hn)⟩

theorem exec_relational (hp : p.Relational) : (p.exec c).1.Relational := by
  cases hi : inserts c
  case some x =>
    obtain ⟨job, dependencies⟩ := x
    cases c
    case createJobBundle job' dependencies' =>
      exact createJobBundle_rule (Q := Relational) hp fun _ hs => (storeTx_inserted hs).relational hp
    case createJobWithIdempotency job' dependencies' dedupeWindow =>
      refine createJobWithIdempotency_rule (Q := Relational) hp fun _ hs => ?_
      have hr := (storeTx_inserted hs).relational hp
      exact ⟨hr.keyed, hr.known⟩
    all_goals cases hi
  case none =>
    cases c
    case createJobBundle          => cases hi
    case createJobWithIdempotency => cases hi
    case upsertJobAttempt         =>
      unfold exec upsertJobAttempt
      dsimp only
      split <;> exact ⟨hp.keyed, hp.known⟩
    case upsertDeadLetter         =>
      unfold exec upsertDeadLetter
      dsimp only
      split <;> exact ⟨hp.keyed, hp.known⟩
    all_goals first | exact ⟨hp.keyed, hp.known⟩ | exact hp.updateJob fun _ => rfl

theorem dependenciesOf_congr (h : p'.dependencies = p.dependencies) : p'.dependenciesOf j = p.dependenciesOf j := by
  unfold dependenciesOf listDependencies
  rw [h]

theorem Rests.releasable (h : Rests p p') : p'.Releasable j ↔ p.Releasable j := by
  unfold Releasable
  rw [h.states, h.dependencies]

-- When the row of a job is marked, the job itself may have been blocked, or one of its dependents has lost its
-- last dependency.
theorem releasable_of_marks (hm : marks c = some job) (hr : (p.exec c).1.Releasable j) :
    p.Releasable j ∨ job.state = .completed ∧ job.id ∈ p.dependenciesOf j ∨
    job.state = .blocked ∧ j = job.id ∧ ∀ u ∈ p.dependenciesOf j, p.states u = some .completed := by
  obtain ⟨hs, hd⟩ := exec_marks (p := p) hm
  unfold Releasable at hr
  rw [hs, hd] at hr
  obtain ⟨hb, hr⟩ := hr
  have marked {s : JobState} (he : (p.states job.id).map (fun _ => job.state) = some s) : job.state = s := by
    have ⟨_, _, he⟩ := Option.map_eq_some_iff.mp he
    exact he
  by_cases hj : j = job.id
  case pos =>
    subst hj
    rw [Function.update_self] at hb
    refine .inr (.inr ⟨marked hb, rfl, fun u hu => ?_⟩)
    have hc := hr _ (mem_dependenciesOf.mp hu) rfl
    by_cases hu : u = job.id
    case pos =>
      subst hu
      dsimp only at hc
      rw [Function.update_self] at hc
      cases (marked hb).symm.trans (marked hc)
    case neg => rwa [Function.update_of_ne hu] at hc
  case neg =>
    rw [Function.update_of_ne hj] at hb
    by_cases hc : job.state = .completed ∧ job.id ∈ p.dependenciesOf j
    case pos => exact .inr (.inl hc)
    case neg =>
      refine .inl ⟨hb, fun e he hi => ?_⟩
      have hr := hr e he hi
      by_cases hu : e.dependsOnJobID = job.id
      case neg => rwa [Function.update_of_ne hu] at hr
      case pos =>
        rw [hu, Function.update_self] at hr
        exact absurd ⟨marked hr, hu ▸ mem_dependenciesOf.mpr (hi ▸ he)⟩ hc

theorem Inserted.states (h : Inserted job dependencies p p') :
    p'.states = Function.update p.states job.id (some job.state) := by
  funext k
  unfold Postgres.states
  rw [h.jobs, Function.update_apply, Function.update_apply]
  split <;> rfl

theorem Inserted.mem_dependenciesOf (h : Inserted job dependencies p p') :
    u ∈ p'.dependenciesOf j ↔ u ∈ p.dependenciesOf j ∨ j = job.id ∧ u ∈ dependencies ∧ u ≠ "" := by
  rw [Postgres.mem_dependenciesOf, Postgres.mem_dependenciesOf, h.edges]

-- A job without a row has no dependencies.
theorem Relational.dependenciesOf_absent (hp : p.Relational) (h : p.jobs j = none) :
    u ∉ p.dependenciesOf j := by
  intro hu
  have hk := (hp.known _ (Postgres.mem_dependenciesOf.mp hu)).left
  simp [h] at hk

theorem Inserted.releasable (h : Inserted job dependencies p p') (hs : job.state ≠ .completed)
    (hr : p'.Releasable j) : p.Releasable j ∧ j ≠ job.id ∨
      j = job.id ∧ job.state = .blocked ∧ ∀ u ∈ dependencies.filter (· ≠ ""), p.states u = some .completed := by
  obtain ⟨hb, hr⟩ := hr
  have hc (u) (hu : u ∈ p'.dependenciesOf j) : p.states u = some .completed := by
    have hr := hr _ (Postgres.mem_dependenciesOf.mp hu) rfl
    dsimp only at hr
    rw [h.states] at hr
    by_cases hi : u = job.id
    case pos =>
      rw [hi, Function.update_self] at hr
      exact absurd (Option.some.inj hr) hs
    case neg => rwa [Function.update_of_ne hi] at hr
  rw [h.states] at hb
  by_cases hj : j = job.id
  case pos =>
    subst hj
    rw [Function.update_self] at hb
    refine .inr ⟨rfl, Option.some.inj hb, fun u hu => hc u ?_⟩
    have ⟨hu, hn⟩ := List.mem_filter.mp hu
    exact h.mem_dependenciesOf.mpr (.inr ⟨rfl, hu, by simpa using hn⟩)
  case neg =>
    rw [Function.update_of_ne hj] at hb
    refine .inl ⟨⟨hb, fun e he hi => hc _ ?_⟩, hj⟩
    exact h.mem_dependenciesOf.mpr (.inl (Postgres.mem_dependenciesOf.mpr (hi ▸ he)))

-- No row disappears, and no job is blocked again.
def Proceeds (p p' : Postgres) : Prop :=
  ∀ j, p.states j ≠ none → p'.states j ≠ none ∧ (p'.states j = some .blocked → p.states j = some .blocked)

theorem Proceeds.refl : p.Proceeds p :=
  fun _ hn => ⟨hn, id⟩

theorem Rests.proceeds (h : Rests p p') : p.Proceeds p' :=
  fun j hn => by rw [h.states]; exact ⟨hn, id⟩

theorem Inserted.proceeds (h : Inserted job dependencies p p') : p.Proceeds p' := by
  intro j hn
  have hj : j ≠ job.id := by
    intro hj
    exact hn (by rw [hj, Postgres.states, h.absent]; rfl)
  rw [h.states, Function.update_of_ne hj]
  exact ⟨hn, id⟩

-- A job may only be blocked by the call if it is blocked already.
theorem exec_marks_proceeds (hm : marks c = some job) (hb : job.state = .blocked → p.states job.id = some .blocked) :
    p.Proceeds (p.exec c).1 := by
  intro j hn
  rw [(exec_marks hm).left]
  by_cases hj : j = job.id
  case neg => rw [Function.update_of_ne hj]; exact ⟨hn, id⟩
  case pos =>
    subst hj
    rw [Function.update_self]
    refine ⟨by simpa using hn, fun he => hb ?_⟩
    have ⟨_, _, hs⟩ := Option.map_eq_some_iff.mp he
    exact hs

theorem exec_inserts_proceeds (h : inserts c = some (job, dependencies)) : p.Proceeds (p.exec c).1 :=
  (exec_inserts h).elim Rests.proceeds Inserted.proceeds

-- A job is stored with its state.
theorem createJobBundle_states (h : (p.createJobBundle job dependencies).2 = .ok ()) :
    (p.createJobBundle job dependencies).1.states job.id = some job.state := by
  rw [createJobBundle_eq, transaction] at h ⊢
  cases hs : storeTx job dependencies p
  case error => rw [hs] at h; cases h
  case ok p' => exact (congrFun (storeTx_inserted hs).states job.id).trans (Function.update_self ..)

theorem createJobWithIdempotency_states {dedupeWindow : Duration} {result : EnqueueResult}
    (h : (p.createJobWithIdempotency job dependencies dedupeWindow).2 = .ok result)
    (hd : result.duplicateSuppressed = false) : result.job = job ∧
    (p.createJobWithIdempotency job dependencies dedupeWindow).1.states job.id = some job.state := by
  by_cases hx : ∀ record ∈ p.idempotency (idempotencyScope job.tenantID job.type job.idempotencyKey),
    record.expiresAt ≤ job.createdAt
  case pos =>
    rw [createJobWithIdempotency_expired hx, transaction] at h ⊢
    cases hs : storeTx job dependencies p
    case error => rw [hs] at h; cases h
    case ok p' =>
      rw [hs] at h
      cases h
      exact ⟨rfl, (congrFun (storeTx_inserted hs).states job.id).trans (Function.update_self ..)⟩
  case neg =>
    simp only [not_forall, not_le] at hx
    obtain ⟨existing, he, hx⟩ := hx
    rw [createJobWithIdempotency_unexpired he hx] at h
    cases hj : p.jobs existing.jobID
    case none   => rw [hj] at h; cases h
    case some _ => rw [hj] at h; cases h; cases hd

end JobPlatform.Postgres
