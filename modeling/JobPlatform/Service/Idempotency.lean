import JobPlatform.Library.Text
import JobPlatform.Service.Atomicity
import Mathlib.Logic.Relation

namespace JobPlatform

-- What identifies a submission.
@[ext]
structure Identity where
  tenantID       : String
  type           : String
  idempotencyKey : String
  deriving DecidableEq

def Identity.scope (i : Identity) : String :=
  idempotencyScope i.tenantID i.type i.idempotencyKey

def JobRequest.identity (req : JobRequest) : Identity where
  tenantID       := tenantOrDefault req.tenantID
  type           := req.type
  idempotencyKey := req.idempotencyKey

def Job.identity (job : Job) : Identity where
  tenantID       := job.tenantID
  type           := job.type
  idempotencyKey := job.idempotencyKey

namespace Postgres

-- Each record belongs to the scope of its job.
structure Recorded (p : Postgres) : Prop where
  keyed   : ∀ i job, p.jobs i = some job → job.id = i
  records : ∀ scope record, p.idempotency scope = some record →
    ∃ job, p.jobs record.jobID = some job ∧ job.identity.scope = scope

-- No job is lost or gets another identity.
structure Descends (p p' : Postgres) : Prop where
  recorded : Recorded p'
  jobs     : ∀ i job, p.jobs i = some job → ∃ job', p'.jobs i = some job' ∧ job'.identity = job.identity

variable {p p' p'' : Postgres} {job : Job} {jobID : JobID} {dependencies : List JobID}

theorem Recorded.descends (h : Recorded p) : Descends p p where
  recorded      := h
  jobs _ job hj := ⟨job, hj, rfl⟩

theorem Descends.trans (h : Descends p p') (h' : Descends p' p'') : Descends p p'' where
  recorded      := h'.recorded
  jobs i job hj :=
    have ⟨job', hj', he⟩   := h.jobs i job hj
    have ⟨job'', hj'', he'⟩ := h'.jobs i job' hj'
    ⟨job'', hj'', he'.trans he⟩

-- The records keep their jobs, and the jobs keep what identifies them.
theorem Recorded.change (h : Recorded p)
    (hj : ∀ i job, p.jobs i = some job → ∃ job', p'.jobs i = some job' ∧ job'.identity = job.identity)
    (hk : ∀ i job, p'.jobs i = some job → job.id = i)
    (hr : ∀ scope record, p'.idempotency scope = some record →
      ∃ record', p.idempotency scope = some record' ∧ record'.jobID = record.jobID) : Descends p p' where
  jobs     := hj
  recorded := {
    keyed := hk
    records := fun scope record hs =>
      have ⟨record', hs', hi⟩ := hr scope record hs
      have ⟨job, hp, he⟩      := h.records scope record' hs'
      have ⟨job', hp', he'⟩   := hj _ job hp
      ⟨job', hi ▸ hp', he' ▸ he⟩
  }

theorem Recorded.updateJob {f : Job → Job} (h : Recorded p)
    (hf : ∀ job, (f job).id = job.id ∧ (f job).identity = job.identity) :
    Descends p (p.updateJob jobID f) := by
  have hu (i) : (p.updateJob jobID f).jobs i = if i = jobID then (p.jobs i).map f else p.jobs i := by
    by_cases hi : i = jobID
    case pos => simp [Postgres.updateJob, hi]
    case neg => simp [Postgres.updateJob, hi]
  refine h.change (fun i job hj => ?_) (fun i job hj => ?_) fun scope record hr => ⟨record, hr, rfl⟩
  · rw [hu, hj]
    split
    · exact ⟨f job, rfl, (hf job).right⟩
    · exact ⟨job, rfl, rfl⟩
  · rw [hu] at hj
    split at hj
    · have ⟨job', hj, he⟩ := Option.map_eq_some_iff.mp hj
      exact he ▸ (hf job').left.trans (h.keyed i job' hj)
    · exact h.keyed i job hj

theorem Recorded.storeTx (h : Recorded p) (hs : p.storeTx job dependencies = .ok p') : Descends p p' := by
  have ⟨hs, hj, hr⟩ := storeTx_eq_ok hs
  refine h.change (fun i job' hi => ⟨job', ?_, rfl⟩) (fun i job' hi => ?_) fun scope record hp =>
    ⟨record, hr ▸ hp, rfl⟩
  · have hn : i ≠ job.id := fun he => by simp [he, hs.absent] at hi
    rw [hj, Function.update_of_ne hn, hi]
  · by_cases hn : i = job.id
    case pos =>
      rw [hj, hn, Function.update_self] at hi
      cases hi
      exact hn.symm
    case neg =>
      rw [hj, Function.update_of_ne hn] at hi
      exact h.keyed i job' hi

theorem Recorded.createJobBundle (h : Recorded p) : Descends p (p.createJobBundle job dependencies).1 :=
  createJobBundle_rule h.descends fun _ => h.storeTx

theorem Recorded.createJobWithIdempotency {dedupeWindow : Duration} (h : Recorded p) :
    Descends p (p.createJobWithIdempotency job dependencies dedupeWindow).1 := by
  refine createJobWithIdempotency_rule h.descends fun p' hs => ?_
  have hd := h.storeTx hs
  have hj := (storeTx_eq_ok hs).right.left
  constructor
  case jobs => exact hd.jobs
  case recorded =>
    refine ⟨hd.recorded.keyed, fun scope record hr => ?_⟩
    simp only [recordTx, Function.update_apply] at hr
    split at hr
    case isFalse   => exact hd.recorded.records scope record hr
    case isTrue he =>
      cases hr
      exact ⟨newRow job, (congrFun hj job.id).trans (Function.update_self ..), he.symm⟩

theorem Recorded.updateIdempotencyOutcome {status : String} {now : Time} (h : Recorded p) :
    Descends p (p.updateIdempotencyOutcome job status now) := by
  refine h.change (fun i job hj => ⟨job, hj, rfl⟩) h.keyed fun scope record hr => ?_
  have ⟨record', hr', he⟩ := Option.map_eq_some_iff.mp hr
  refine ⟨record', hr', ?_⟩
  rw [← he]
  split <;> rfl

theorem Recorded.exec (h : Recorded p) (c : RepoCall) : Descends p (p.exec c).1 := by
  cases c
  case createJobBundle          => exact h.createJobBundle
  case createJobWithIdempotency => exact h.createJobWithIdempotency
  case updateIdempotencyOutcome => exact h.updateIdempotencyOutcome
  case getJob                   => exact h.descends
  case listDependencies         => exact h.descends
  case listDependentJobs        => exact h.descends
  case deleteDeadLetters        => exact ⟨⟨h.keyed, h.records⟩, h.descends.jobs⟩
  case upsertJobAttempt         =>
    simp only [Postgres.exec, upsertJobAttempt]
    split
    · exact h.descends
    · exact ⟨⟨h.keyed, h.records⟩, h.descends.jobs⟩
  case upsertDeadLetter         =>
    simp only [Postgres.exec, upsertDeadLetter]
    split
    · exact h.descends
    · exact ⟨⟨h.keyed, h.records⟩, h.descends.jobs⟩
  all_goals exact h.updateJob fun _ => ⟨rfl, rfl⟩

end Postgres

namespace World

variable {faults : Nat → Fault} {w w' : World}

-- Somebody makes a call, which may fail.
def Step (w w' : World) : Prop :=
  ∃ faults c, w' = (w.tryExec faults c).1

def After : World → World → Prop :=
  Relation.ReflTransGen Step

-- The stores are empty when the platform is started.
def started (broker : RedisBroker) (clock : Clock) : World :=
  { sample with broker, clock }

def Reachable (w : World) : Prop :=
  ∃ broker clock, (started broker clock).After w

theorem tryExec_descends {c : Call} (h : w.postgres.Recorded) :
    w.postgres.Descends (w.tryExec faults c).1.postgres := by
  have he : w.postgres.Descends (w.exec c).1.postgres := by
    cases c
    case repo c => exact h.exec c
    all_goals exact h.descends
  unfold tryExec
  split
  · exact h.descends
  · exact he
  · exact he

theorem tryExec_none {c : Call} : w.tryExec (fun _ => .none) c = w.exec c := by
  cases c <;> rfl

theorem After.descends (h : w.postgres.Recorded) (ha : w.After w') : w.postgres.Descends w'.postgres := by
  induction ha
  case refl          => exact h.descends
  case tail hs hi    =>
    have ⟨faults, c, he⟩ := hs
    exact hi.trans (he ▸ tryExec_descends hi.recorded)

theorem Reachable.recorded (h : w.Reachable) : w.postgres.Recorded := by
  have ⟨broker, clock, ha⟩ := h
  have hs : (started broker clock).postgres.Recorded :=
    ⟨fun _ _ h => (nomatch h), fun _ _ h => (nomatch h)⟩
  exact (ha.descends hs).recorded

end World

-- A run in which the second request is taken for a duplicate of the first one. Before each of the
-- requests anybody may have made any calls.
structure Suppression (req₁ req₂ : JobRequest) where
  m₁         : Manager
  m₂         : Manager
  jobID₁     : JobID
  jobID₂     : JobID
  faults₁    : Nat → Fault
  faults₂    : Nat → Fault
  w₁         : World
  w₁'        : World
  w₂         : World
  w₂'        : World
  result₁    : EnqueueResult
  result₂    : EnqueueResult
  reachable  : w₁.Reachable
  first      : (m₁.enqueueJob req₁ jobID₁).run (World.tryExec faults₁) w₁ = (w₁', .ok result₁)
  accepted   : result₁.duplicateSuppressed = false
  between    : w₁'.After w₂
  second     : (m₂.enqueueJob req₂ jobID₂).run (World.tryExec faults₂) w₂ = (w₂', .ok result₂)
  suppressed : result₂.duplicateSuppressed = true
  sameJob    : result₂.job.id = result₁.job.id

namespace Manager

variable {m : Manager} {req : JobRequest} {jobID : JobID} {faults : Nat → Fault} {w w' : World}
         {result : EnqueueResult} {record : IdempotencyRecord} {existing : Job}

theorem enqueueJob_accepted (h : (m.enqueueJob req jobID).run (World.tryExec faults) w = (w', .ok result))
    (ha : result.duplicateSuppressed = false) :
    result.job = buildJob w.now req jobID ∧ Commits req result.job w.postgres ∧
    w'.postgres.jobs jobID = some (Postgres.newRow result.job) := by
  revert h
  refine enqueueJob_rule (Q := fun x => x = (w', .ok result) → _) ?_ ?_ ?_ ?_
  case refine_1 => exact fun _ _ _ _ _ h => by cases h
  case refine_4 => exact fun _ _ _ _ h => by cases h
  case refine_2 =>
    intro _ _ _ _ _ _ _ _ _ h
    cases h
    cases ha
  case refine_3 =>
    intro _ _ _ hb _ hc hj _ h
    cases h
    exact ⟨hb, hc, by rw [hj, Function.update_self]⟩

-- Without any faults the job is stored together with its record.
theorem enqueueJob_stores (ha : m.accepts req = .ok ()) (hk : req.idempotencyKey ≠ "")
    (hc : Commits req (buildJob w.now req jobID) w.postgres) :
    ∃ w' result, (m.enqueueJob req jobID).run (World.tryExec fun _ => .none) w = (w', .ok result) ∧
      result.duplicateSuppressed = false ∧ w'.clock = w.clock ∧ w'.postgres.idempotency req.scope =
        some (Postgres.storedRecord <| Postgres.newIdempotencyRecord (buildJob w.now req jobID) (m.dedupeWindow req)) := by
  have ⟨p', hp⟩ := Postgres.storeTx_storable hc.storable
  have hm : m.creation req (buildJob w.now req jobID) w.postgres = _ := if_pos hk
  rw [Postgres.createJobWithIdempotency_expired (hc.expired hk), Postgres.transaction, hp] at hm
  simp only [enqueueJob, ha, Prog.bind_eq, Prog.run_bind, timeNow_run, createJob_run, hm, Except.map,
    Postgres.recordTx, Bool.false_eq_true, if_false, Broker.enqueue_run]
  exact ⟨_, _, rfl, rfl, rfl, Function.update_self ..⟩

-- A live record leads to its own job.
theorem enqueueJob_suppresses (jobID : JobID) (ha : m.accepts req = .ok ()) (hk : req.idempotencyKey ≠ "")
    (hr : w.postgres.idempotency req.scope = some record) (hx : w.now < record.expiresAt)
    (hj : w.postgres.jobs record.jobID = some existing) :
    ∃ w' result, (m.enqueueJob req jobID).run (World.tryExec fun _ => .none) w = (w', .ok result) ∧
      result.duplicateSuppressed = true ∧ result.job = existing := by
  have hs := @Postgres.createJobWithIdempotency_unexpired (buildJob w.now req jobID)
    (sanitizeDependencies req.dependencies jobID) w.postgres (m.dedupeWindow req) record hr hx
  rw [hj] at hs
  have hm : m.creation req (buildJob w.now req jobID) w.postgres = _ := (if_pos hk).trans hs
  simp only [enqueueJob, ha, Prog.bind_eq, Prog.run_bind, timeNow_run, createJob_run, hm, if_true]
  exact ⟨_, _, rfl, rfl, rfl⟩

end Manager

-- The database can store the job of a request.
def JobRequest.IsStorable (req : JobRequest) : Prop :=
  let job := buildJob .zero req ""
  [job.priority, job.attempts, job.maxAttempts, job.schemaVersion, job.timeoutSeconds].all Postgres.isInt4 ∧
    req.payload ≠ ""

-- Different submissions that the records cannot tell apart.
def JobRequest.Collides (req₁ req₂ : JobRequest) : Prop :=
  req₁.identity ≠ req₂.identity ∧ req₁.scope = req₂.scope

theorem JobRequest.plain_isStorable : (plain "email.send").IsStorable := by
  simp only [IsStorable]
  decide

-- While the clock stands still shortly before a microsecond ends, no record expires.
def stopped : Clock where
  time _ := 999
  mono   := monotone_const

-- The database holds exactly the given jobs, and no records.
structure Stocked (ids : List JobID) (w : World) : Prop where
  reachable : w.Reachable
  clock     : w.clock = stopped
  known     : ∀ id ∈ ids, (w.postgres.jobs id).isSome
  unknown   : ∀ id ∉ ids, w.postgres.jobs id = none
  records   : ∀ scope, w.postgres.idempotency scope = none

section

variable {w : World} {ids : List JobID}

theorem Stocked.empty : Stocked [] (.started .sample stopped) where
  reachable   := ⟨_, _, .refl⟩
  clock       := rfl
  known       := by simp
  unknown _ _ := rfl
  records _   := rfl

theorem Stocked.submit {id : JobID} (h : Stocked ids w) (hi : id ∉ ids) : ∃ w', Stocked (id :: ids) w' := by
  obtain ⟨broker, clock, ha⟩ := h.reachable
  obtain ⟨hr, hp⟩ := JobRequest.plain_isStorable
  have hs : w.postgres.Storable (buildJob .zero (.plain "email.send") id) [] := ⟨hr, hp, h.unknown id hi, by simp⟩
  obtain ⟨p', hp⟩    := Postgres.storeTx_storable hs
  obtain ⟨_, hj, hr⟩ := Postgres.storeTx_eq_ok hp
  have hid : (buildJob .zero (.plain "email.send") id).id = id := rfl
  have he : (w.exec (.repo (.createJobBundle (buildJob .zero (.plain "email.send") id) []))).1 =
      { w with postgres := p', calls := w.calls + 1 } := by
    simp [Postgres.exec, Postgres.createJobBundle_eq, Postgres.transaction, hp, Except.map]
  rw [hid] at hj
  refine ⟨{ w with postgres := p', calls := w.calls + 1 }, ?_⟩
  constructor
  case reachable => exact ⟨broker, clock, ha.tail ⟨fun _ => .none, _, by rw [World.tryExec_none, he]⟩⟩
  case clock     => exact h.clock
  case records   => exact fun scope => hr ▸ h.records scope
  case known     =>
    intro i hm
    by_cases hn : i = id
    case pos => simp [hj, hn]
    case neg => simpa [hj, hn] using h.known i ((List.mem_cons.mp hm).resolve_left hn)
  case unknown   =>
    intro i hm
    obtain ⟨hn, hm⟩ := List.ne_and_not_mem_of_not_mem_cons hm
    simpa [hj, hn] using h.unknown i hm

theorem exists_stocked (hn : ids.Nodup) : ∃ w, Stocked ids w := by
  induction ids
  case nil            => exact ⟨_, .empty⟩
  case cons id ids hi =>
    have ⟨hm, hn⟩ := List.nodup_cons.mp hn
    have ⟨w, h⟩   := hi hn
    exact h.submit hm

end

-- Submissions can be told apart if no tenant or type contains a colon.
theorem JobRequest.not_collides {req₁ req₂ : JobRequest}
    (ht₁ : ':' ∉ req₁.identity.tenantID.toList) (ht₂ : ':' ∉ req₂.identity.tenantID.toList)
    (hj₁ : ':' ∉ req₁.type.toList) (hj₂ : ':' ∉ req₂.type.toList) : ¬req₁.Collides req₂ := by
  intro ⟨hn, hs⟩
  have he (req : JobRequest) : req.scope = req.identity.tenantID ++ ':'.toString ++
      (req.identity.type ++ ':'.toString ++ req.identity.idempotencyKey) := by
    simp only [scope, idempotencyScope, identity, String.append_assoc]
    rfl
  rw [he, he] at hs
  have ⟨ht, hs⟩ := Text.join_inj_left ht₁ ht₂ hs
  have ⟨hj, hk⟩ := Text.join_inj_left hj₁ hj₂ hs
  exact hn <| Identity.ext ht hj hk

namespace Suppression

variable {req₁ req₂ : JobRequest}

theorem storable (s : Suppression req₁ req₂) : req₁.IsStorable := by
  have ⟨hb, hc, _⟩ := Manager.enqueueJob_accepted s.first s.accepted
  rw [hb] at hc
  exact ⟨hc.storable.inRange, hc.storable.payload⟩

theorem unexpired {job : Job} {dedupeWindow : Duration} (h : job.createdAt = 999) :
    999 < (Postgres.storedRecord (Postgres.newIdempotencyRecord job dedupeWindow)).expiresAt := by
  have hs (d : Int) (hd : 0 < d) : 999 < Time.stored (999 + d) := by
    have h : 999 < (999 + d) / 1000 * 1000 := by omega
    exact h
  simp only [Postgres.storedRecord, Postgres.newIdempotencyRecord, h]
  split
  case isTrue     => exact hs _ (by decide)
  case isFalse hd => exact hs _ (not_le.mp hd)

theorem nonempty (hv₁ : req₁.validate = .ok ()) (hv₂ : req₂.validate = .ok ()) (hk₁ : req₁.idempotencyKey ≠ "")
    (hk₂ : req₂.idempotencyKey ≠ "") (hs : req₁.IsStorable) (he : req₁.scope = req₂.scope) :
    Nonempty (Suppression req₁ req₂) := by
  have hd : (sanitizeDependencies req₁.dependencies "job-1").Nodup := sanitizeDependencies_nodup
  obtain ⟨w, hw⟩ := exists_stocked hd
  have ht : w.now = 999 := by
    rw [World.now, hw.clock]
    rfl
  have hs' : Manager.Commits req₁ (buildJob w.now req₁ "job-1") w.postgres := by
    have hn : "job-1" ∉ sanitizeDependencies req₁.dependencies "job-1" :=
      fun h => (mem_sanitizeDependencies.mp h).right.right rfl
    refine ⟨⟨hs.left, hs.right, hw.unknown _ hn, fun d hd => .inr <| .inr <| hw.known d hd⟩, fun _ _ hr => ?_⟩
    cases (hw.records _).symm.trans hr
  have ha₁ : Manager.sample.accepts req₁ = .ok () := by simp [Manager.accepts, hv₁, Manager.sample, bind, Except.bind]
  have ha₂ : Manager.sample.accepts req₂ = .ok () := by simp [Manager.accepts, hv₂, Manager.sample, bind, Except.bind]
  obtain ⟨w', result, h, hf, hc', hr'⟩ := Manager.enqueueJob_stores ha₁ hk₁ hs'
  obtain ⟨hb, _, hj'⟩ := Manager.enqueueJob_accepted h hf
  have ht' : w'.now = 999 := by 
    rw [World.now, hc', hw.clock]
    rfl
  obtain ⟨w'', result', h', hf', hb'⟩ := Manager.enqueueJob_suppresses "job-2" ha₂ hk₂ (he ▸ hr')
    (ht' ▸ unexpired ht) hj'
  have hi : result'.job.id = result.job.id := by
    rw [hb']
    rfl
  exact ⟨_, _, _, _, _, _, _, _, _, _, _, _, hw.reachable, h, hf, .refl, h', hf', hi⟩

end Suppression

end JobPlatform
