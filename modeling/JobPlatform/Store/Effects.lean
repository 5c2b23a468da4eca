import JobPlatform.Store.Postgres

namespace JobPlatform.Postgres

-- What the database checks before it stores a job with its dependencies.
structure Storable (job : Job) (dependencies : List JobID) (p : Postgres) : Prop where
  inRange : [job.priority, job.attempts, job.maxAttempts, job.schemaVersion, job.timeoutSeconds].all isInt4
  payload : job.payload ≠ ""
  absent  : p.jobs job.id = none
  known   : ∀ d ∈ dependencies, d = "" ∨ d = job.id ∨ (p.jobs d).isSome

-- The statements which all the transactions for new jobs have in common.
def storeTx (job : Job) (dependencies : List JobID) (p : Postgres) : Except Error Postgres :=
  insertJobTx job p >>= insertDependenciesTx job.id dependencies

variable {job : Job} {jobID : JobID} {dependencies : List JobID} {p p' : Postgres} {e : Error}

theorem insertJobTx_eq_ok (h : insertJobTx job p = .ok p') :
    Storable job [] p ∧ p' = { p with jobs := Function.update p.jobs job.id (some <| newRow job) } := by
  unfold insertJobTx at h
  split at h
  case isTrue => cases h
  case isFalse hr =>
    split at h
    case isTrue => cases h
    case isFalse hp =>
      split at h
      case isTrue => cases h
      case isFalse ha =>
        have hr := of_not_not hr
        have ha := Option.not_isSome_iff_eq_none.mp ha
        cases h
        exact ⟨⟨hr, hp, ha, by simp⟩, rfl⟩

theorem insertJobTx_storable (h : Storable job dependencies p) :
    insertJobTx job p = .ok { p with jobs := Function.update p.jobs job.id (some <| newRow job) } := by
  have hr := h.inRange
  simp_all [insertJobTx, h.payload, h.absent]

-- Nothing but edges is inserted.
theorem insertDependenciesTx_frame (h : insertDependenciesTx jobID dependencies p = .ok p') :
    p' = { p with dependencies := p'.dependencies } := by
  induction dependencies generalizing p
  case nil            => cases h; rfl
  case cons d rest hi =>
    unfold insertDependenciesTx at h
    split at h
    case isTrue  => exact hi h
    case isFalse =>
      split at h
      case isTrue  => cases h
      case isFalse => exact (hi h :)

-- The foreign keys of the edges are checked for each of them.
theorem insertDependenciesTx_eq_ok (h : insertDependenciesTx jobID dependencies p = .ok p') :
    ∀ d ∈ dependencies, d = "" ∨ (p.jobs d).isSome := by
  induction dependencies generalizing p
  case nil             => simp
  case cons d rest hi =>
    unfold insertDependenciesTx at h
    split at h
    case isTrue hd => exact List.forall_mem_cons.mpr ⟨.inl hd, hi h⟩
    case isFalse =>
      split at h
      case isTrue     => cases h
      case isFalse hd =>
        have hk := hi h
        have hd : (p.jobs d).isSome := by simp_all [← Option.ne_none_iff_isSome]
        exact List.forall_mem_cons.mpr ⟨.inr hd, hk⟩

theorem insertDependenciesTx_known (hj : (p.jobs jobID).isSome)
    (h : ∀ d ∈ dependencies, d = "" ∨ (p.jobs d).isSome) :
    ∃ p', insertDependenciesTx jobID dependencies p = .ok p' := by
  induction dependencies generalizing p
  case nil            => exact ⟨p, rfl⟩
  case cons d rest hi =>
    have ⟨hd, hk⟩ := List.forall_mem_cons.mp h
    unfold insertDependenciesTx
    split
    case isTrue     => exact hi hj hk
    case isFalse he =>
      have hd := hd.resolve_left he
      have hn : ¬((p.jobs jobID).isNone ∨ (p.jobs d).isNone) := by
        simp [Option.isNone_iff_eq_none, ← Option.isSome_iff_ne_none, hj, hd]
      rw [if_neg hn]
      exact hi hj hk

theorem storeTx_steps (h : storeTx job dependencies p = .ok p') :
    Storable job [] p ∧ insertDependenciesTx job.id dependencies
      { p with jobs := Function.update p.jobs job.id (some <| newRow job) } = .ok p' := by
  unfold storeTx at h
  cases hi : insertJobTx job p
  case error => rw [hi] at h; cases h
  case ok p₁ =>
    rw [hi] at h
    have ⟨hs, he⟩ := insertJobTx_eq_ok hi
    exact ⟨hs, he ▸ h⟩

-- The row of the job and its edges are all that is inserted.
theorem storeTx_frame (h : storeTx job dependencies p = .ok p') :
    p' = { p with
      jobs         := Function.update p.jobs job.id (some <| newRow job)
      dependencies := p'.dependencies } :=
  insertDependenciesTx_frame (storeTx_steps h).right

theorem storeTx_eq_ok (h : storeTx job dependencies p = .ok p') :
    Storable job dependencies p ∧ p'.jobs = Function.update p.jobs job.id (some <| newRow job) ∧
    p'.idempotency = p.idempotency := by
  have ⟨hs, hd⟩ := storeTx_steps h
  have hf := storeTx_frame h
  refine ⟨⟨hs.inRange, hs.payload, hs.absent, fun d hm => ?_⟩, (congrArg Postgres.jobs hf :),
    (congrArg Postgres.idempotency hf :)⟩
  have hk := insertDependenciesTx_eq_ok hd d hm
  by_cases hd : d = job.id
  case pos => exact .inr <| .inl hd
  case neg => simpa [hd] using hk

theorem storeTx_storable (h : Storable job dependencies p) :
    ∃ p', storeTx job dependencies p = .ok p' := by
  unfold storeTx
  rw [insertJobTx_storable h]
  refine insertDependenciesTx_known (by simp) fun d hd => (h.known d hd).imp_right fun hk => ?_
  by_cases hd : d = job.id
  case pos => simp [hd]
  case neg => simpa [hd] using hk

theorem createJobBundle_eq :
    createJobBundle job dependencies p = transaction (fun p => (storeTx job dependencies p).map (·, ())) p := by
  simp only [createJobBundle, transaction, storeTx]
  cases insertJobTx job p
  case error => rfl
  case ok p₁ => cases insertDependenciesTx job.id dependencies p₁ <;> rfl

section

variable {dedupeWindow : Duration} {existing : IdempotencyRecord}

-- What is left to do when the job has been stored.
def recordTx (job : Job) (record : IdempotencyRecord) (p : Postgres) : Postgres × EnqueueResult :=
  ({ p with idempotency := Function.update p.idempotency record.scope (some <| storedRecord record) },
    { job, duplicateSuppressed := false, idempotency := some record })

-- What holds before the transaction, and whenever it stores the job, holds after it.
theorem createJobBundle_rule {Q : Postgres → Prop} (hp : Q p)
    (hs : ∀ p', storeTx job dependencies p = .ok p' → Q p') : Q (p.createJobBundle job dependencies).1 := by
  rw [createJobBundle_eq, transaction]
  cases h : storeTx job dependencies p
  case error => exact hp
  case ok p' => exact hs p' h

theorem createJobWithIdempotency_expired
    (h : ∀ existing ∈ p.idempotency (idempotencyScope job.tenantID job.type job.idempotencyKey),
      existing.expiresAt ≤ job.createdAt) :
    createJobWithIdempotency job dependencies dedupeWindow p = transaction (fun p =>
      (storeTx job dependencies p).map (recordTx job <| newIdempotencyRecord job dedupeWindow)) p := by
  have hc (existing) (he : p.idempotency (newIdempotencyRecord job dedupeWindow).scope = some existing) :
      ¬job.createdAt < existing.expiresAt :=
    not_lt.mpr <| h existing he
  simp only [createJobWithIdempotency, transaction, storeTx]
  cases hr : p.idempotency (newIdempotencyRecord job dedupeWindow).scope
  case none          =>
    dsimp only
    cases insertJobTx job p
    case error => rfl
    case ok p₁ => cases hd : insertDependenciesTx job.id dependencies p₁ <;> simp [bind, Except.bind, hd] <;> rfl
  case some existing =>
    simp only [hc existing hr, if_false]
    cases insertJobTx job p
    case error => rfl
    case ok p₁ => cases hd : insertDependenciesTx job.id dependencies p₁ <;> simp [bind, Except.bind, hd] <;> rfl

theorem createJobWithIdempotency_unexpired
    (hr : p.idempotency (idempotencyScope job.tenantID job.type job.idempotencyKey) = some existing)
    (h : job.createdAt < existing.expiresAt) :
    createJobWithIdempotency job dependencies dedupeWindow p =
      match p.jobs existing.jobID with
      | some existingJob =>
        (p, .ok { job := existingJob, duplicateSuppressed := true, idempotency := some existing })
      | none => (p, .error .noRows) := by
  have hr : p.idempotency (newIdempotencyRecord job dedupeWindow).scope = some existing := hr
  simp only [createJobWithIdempotency, transaction, hr, h, if_true]
  cases p.jobs existing.jobID <;> rfl

theorem createJobWithIdempotency_rule {Q : Postgres → Prop} (hp : Q p)
    (hs : ∀ p', storeTx job dependencies p = .ok p' →
      Q (recordTx job (newIdempotencyRecord job dedupeWindow) p').1) :
    Q (p.createJobWithIdempotency job dependencies dedupeWindow).1 := by
  by_cases hx : ∀ record ∈ p.idempotency (idempotencyScope job.tenantID job.type job.idempotencyKey),
    record.expiresAt ≤ job.createdAt
  case pos =>
    rw [createJobWithIdempotency_expired hx, transaction]
    cases h : storeTx job dependencies p
    case error => exact hp
    case ok p' => exact hs p' h
  case neg =>
    simp only [not_forall, not_le] at hx
    have ⟨existing, he, hx⟩ := hx
    rw [createJobWithIdempotency_unexpired he hx]
    cases p.jobs existing.jobID <;> exact hp

end
end JobPlatform.Postgres
